import Conveyor.Pipeline.File
import Conveyor.Proofs.Template.Loading
import Conveyor.Proofs.Yaml.History
import Conveyor.Proofs.Yaml.Quoted
import Conveyor.Template
import Conveyor.Validation

/-!
# Conveyor.Proofs.Template.Names

The definitions of rendered templates, and their names.

A template puts the name between double quotes as it is. So its text is read up to the opening
quote, which is the same for all names; then whatever stands between the quotes; and then the rest
of the text, which does not depend on the name once the closing quote is found. So the rest is read
and checked once for each template.

Nothing escapes the name. The names that YAML does not read as they stand are lost: those with a
quote, a backslash, a character that YAML does not allow, or a line break that it folds.

* `Verbatim`                   — a text that is read as it is from between double quotes.
* `readQuoted_of_ofYaml?`      — the name of a definition is what is read from between the quotes.
* `tokens?_render_of_verbatim` — a name that is read as itself changes nothing behind it.
* `loads_under_its_name_iff`   — a rendered definition has its name exactly if that is verbatim.
-/

namespace Conveyor

open Yaml

/-- A text that is read as it is from between double quotes: all its characters are allowed,
neither quotes nor escapes are among them, and its line breaks are kept. -/
structure Yaml.Verbatim (s : List Char) : Prop where
  allowed : ∀ c ∈ s, isAllowed c = true
  bare : Bare s
  unfolded : Unfolded s

-- A name with a quote is not.
example : ¬ Verbatim ['a', '"', 'b'] := fun h => (h.bare '"' (by decide)).1 rfl

namespace Template

/-! ## The text -/

/-- What stands before the name. -/
def front (t : Template) : List Char := t.title.toList ++ "\nversion: \"1\"\nname:".toList

/-- What stands behind the closing quote of the name. -/
def ending (t : Template) : List Char := '\n' :: t.body.flatMap fun line => line.toList ++ ['\n']

theorem toList_render (t : Template) (name : String) :
    (t.render name).toList = t.front ++ ' ' :: '"' :: (name.toList ++ '"' :: t.ending) := by
  simp [render, front, ending, String.toList_join, List.flatMap_map]

theorem all_isAllowed_around (t : Template) :
    (t.front.all isAllowed && t.ending.all isAllowed) = true := by
  cases t <;> decide +kernel

theorem all_isAllowed_render (t : Template) (name : String) :
    (t.render name).toList.all isAllowed = name.toList.all isAllowed := by
  obtain ⟨hfront, hending⟩ := Bool.and_eq_true_iff.1 t.all_isAllowed_around
  have hblank : isAllowed ' ' = true := by decide
  have hquote : isAllowed '"' = true := by decide
  rw [toList_render]
  simp only [List.all_append, List.all_cons, hfront, hending, hblank, hquote, Bool.true_and,
    Bool.and_true]

/-! ## Tokens -/

/-- A lexer before the blank and the quote of the name. -/
def atName (s : List Char) : Lexer where
  cursor := ⟨s, 2, 5⟩
  indent := 0
  indents := [-1]
  keyAllowed := false
  slots := [.token .value, .token (.scalar .plain "name"), .mark 1,
    .token (.scalar .doubleQuoted "1"), .token .value, .token (.scalar .plain "version"), .mark 0]
  keys := [(1, false), (0, true)]
  nextId := 2

/-- A lexer behind the closing quote, without its history. -/
def behindName (s : List Char) (column : Nat) : Lexer where
  cursor := ⟨s, 0, column⟩
  indent := 0
  indents := [-1]
  keyAllowed := false

/-- What was read up to there, if the name was read as this text. -/
def named (text : String) (lines : Nat) : History where
  lines := lines
  ids := 2
  slots := .token (.scalar .doubleQuoted text) :: (atName []).slots
  keys := (atName []).keys

theorem closed_named (text : String) (lines : Nat) : (named text lines).Closed where
  keys := by simp [named, atName]
  slots := by simp [named, atName]

theorem run_front (t : Template) (s : List Char) (fuel : Nat) :
    Lexer.run (fuel + 5) { cursor := { rest := t.front ++ ' ' :: '"' :: s } } =
      Lexer.run fuel (atName (' ' :: '"' :: s)) := by
  let text := ' ' :: '"' :: s
  -- the title is a comment, and no token
  let start : Lexer := { cursor := ⟨"version: \"1\"\nname:".toList ++ text, 1, 0⟩ }
  have htitle : (Lexer.skipSpacing ((t.front ++ text).length + 1)
      { cursor := { rest := t.front ++ text } }).align = some start := by cases t <;> rfl
  -- the word, whose mark is a key once the colon is met
  let version : Lexer := { start with
    cursor := ⟨": \"1\"\nname:".toList ++ text, 1, 7⟩
    marks := [some { id := 0, line := 1, column := 0, required := false }]
    keyAllowed := false
    slots := [.token (.scalar .plain "version"), .mark 0]
    nextId := 1 }
  let colon : Lexer := { version with
    cursor := ⟨" \"1\"\nname:".toList ++ text, 1, 8⟩
    indent := 0
    indents := [-1]
    marks := [none]
    slots := .token .value :: version.slots
    keys := [(0, true)] }
  let one : Lexer := { colon with
    cursor := ⟨"\nname:".toList ++ text, 1, 12⟩
    slots := .token (.scalar .doubleQuoted "1") :: colon.slots }
  -- the second key stands where the block requires one
  let name : Lexer := { one with
    cursor := ⟨':' :: text, 2, 4⟩
    marks := [some { id := 1, line := 2, column := 0, required := true }]
    slots := .token (.scalar .plain "name") :: .mark 1 :: one.slots
    nextId := 2 }
  calc
    _ = Lexer.run (fuel + 4) version := Lexer.run_read _ htitle rfl rfl
    _ = Lexer.run (fuel + 3) colon := Lexer.run_read _ rfl rfl rfl
    _ = Lexer.run (fuel + 2) one := Lexer.run_read _ rfl rfl rfl
    _ = Lexer.run (fuel + 1) name := Lexer.run_read _ rfl rfl rfl
    _ = Lexer.run fuel (atName text) := Lexer.run_read _ rfl rfl rfl

/-- The name is read as in a text of its own, two lines further down. -/
theorem run_name (s : List Char) (fuel : Nat) :
    Lexer.run (fuel + 1) (atName (' ' :: '"' :: s)) =
      (readQuoted false ⟨'"' :: s, 0, 6⟩).bind fun r =>
        Lexer.run fuel ((behindName r.2.rest r.2.column).after (named r.1 (r.2.line + 2))) := by
  let quote : Cursor := ⟨'"' :: s, 0, 6⟩
  let atQuote : Lexer := { atName [] with cursor := quote.below 2 }
  have haligned : (Lexer.skipSpacing ((' ' :: '"' :: s).length + 1)
      (atName (' ' :: '"' :: s))).align = some atQuote := rfl
  have hread : atQuote.readAt '"' = (readQuoted false quote).map fun r =>
      (behindName r.2.rest r.2.column).after (named r.1 (r.2.line + 2)) := by
    change (readQuoted false (quote.below 2)).map _ = _
    rw [readQuoted_below, Option.map_map]
    refine congrFun (congrArg Option.map (funext fun r => ?_)) _
    simp [atQuote, Lexer.after, behindName, named, Cursor.below, Lexer.push, atName]
  have hrest : (atName (' ' :: '"' :: s)).cursor.rest = ' ' :: '"' :: s := rfl
  rw [Lexer.run_succ, hrest, haligned, Option.bind_some]
  change (atQuote.readAt '"').bind _ = _
  rw [hread, Option.bind_map]
  rfl

theorem skipSpacing_lineFeed (fuel : Nat) {l : Lexer} {s : List Char}
    (hl : l.cursor.rest = '\n' :: s) :
    Lexer.skipSpacing (fuel + 1) l =
      Lexer.skipSpacing fuel { l with
        cursor := ⟨s, l.cursor.line + 1, 0⟩, keyAllowed := l.keyAllowed || !l.inFlow } := by
  obtain ⟨⟨rest, line, column⟩, indent, indents, marks, keyAllowed, slots, keys, nextId⟩ := l
  subst hl
  have hmark : ¬ (line = 0 ∧ column = 0 ∧
      (⟨'\n' :: s, line, column⟩ : Cursor).peek = some byteOrderMark) := by
    rintro ⟨-, -, hpeek⟩
    exact absurd (Option.some.inj hpeek) (by decide)
  have hblanks : ∀ tabs : Bool, (⟨'\n' :: s, line, column⟩ : Cursor).skipWhile
      (fun d => d = ' ' || (tabs && d = '\t')) = ⟨'\n' :: s, line, column⟩ := by
    intro tabs
    simp [Cursor.skipWhile, Cursor.takeWhile, Cursor.skip]
  rw [Lexer.skipSpacing]
  simp only [if_neg hmark, hblanks]
  rfl

theorem run_behindName (t : Template) (column fuel : Nat) (h : History) :
    Lexer.run fuel ((behindName t.ending column).after h) =
      Lexer.run fuel ((behindName t.ending 0).after h) := by
  cases fuel with
  | zero => rfl
  | succ fuel =>
    rw [Lexer.run_succ, Lexer.run_succ, skipSpacing_lineFeed _ rfl, skipSpacing_lineFeed _ rfl]
    rfl

/-! ## The name that is read -/

theorem name_of_definition?_opening {text : String} {ts : List Token} {p : Pipeline}
    (h : definition? (opening text ++ ts) = some p) : p.name = text := by
  rw [definition?_opening text text] at h
  obtain ⟨q, -, rfl⟩ := Option.map_eq_some_iff.1 h
  rfl

theorem length_render (t : Template) (name : String) :
    (t.render name).toList.length + 2 =
      t.ending.length + (t.title.toList.length + name.toList.length + 18) + 6 := by
  have hfront : t.front.length = t.title.toList.length + 19 := by
    have hlines : "\nversion: \"1\"\nname:".toList.length = 19 := by decide
    rw [front, List.length_append, hlines]
  rw [toList_render]
  simp only [List.length_append, List.length_cons, hfront]
  omega

theorem tokens?_render (t : Template) (name : String) : tokens? (t.render name) =
    if name.toList.all isAllowed then
      (readQuoted false ⟨'"' :: (name.toList ++ '"' :: t.ending), 0, 6⟩).bind fun r =>
        (Lexer.run (t.ending.length + (t.title.toList.length + name.toList.length + 18))
          ((behindName r.2.rest r.2.column).after (named r.1 (r.2.line + 2)))).map Lexer.tokens
    else none := by
  rw [tokens?]
  simp only [all_isAllowed_render]
  refine ite_congr rfl (fun _ => ?_) fun _ => rfl
  rw [length_render, toList_render]
  change Option.map Lexer.tokens (Lexer.run (_ + 1 + 5) _) = _
  rw [run_front, run_name, Option.map_bind]
  rfl

theorem readQuoted_of_ofYaml? {t : Template} {name : String} {p : Pipeline}
    (h : Pipeline.ofYaml? (t.render name) = some p) :
    name.toList.all isAllowed = true ∧
      ∃ d, readQuoted false ⟨'"' :: (name.toList ++ '"' :: t.ending), 0, 6⟩ =
        some (p.name, d) := by
  rw [ofYaml?_eq, tokens?_render] at h
  obtain ⟨ts, hts, hp⟩ := Option.bind_eq_some_iff.1 h
  split at hts
  · rename_i hallowed
    obtain ⟨r, hr, hrun⟩ := Option.bind_eq_some_iff.1 hts
    obtain ⟨later, hlater⟩ := Lexer.reads_on _ (behindName r.2.rest r.2.column)
    rw [hlater (named r.1 (r.2.line + 2)) (Nat.succ_pos _) (closed_named _ _)] at hrun
    obtain ⟨more, -, rfl⟩ := Option.map_eq_some_iff.1 hrun
    have hname : p.name = r.1 := @name_of_definition?_opening r.1 more p hp
    exact ⟨hallowed, r.2, by rw [hr, hname]⟩
  · cases hts

/-! ## The rest of the text -/

/-- The tokens behind the name, read once. -/
def endingTokens (t : Template) : Option (List Token) :=
  (Lexer.run t.ending.length ((behindName t.ending 0).after ⟨1, 0, [], []⟩)).map Lexer.tokens

/-- The definition under an empty name. -/
def sample (t : Template) : Option Pipeline :=
  t.endingTokens.bind fun ts => definition? (opening "" ++ ts)

theorem isValid_sample (t : Template) :
    t.sample.any (fun p => (Validation.ofPipeline p).isValid) = true := by
  -- the rest of a text is fixed, so it is read and checked by computation
  cases t <;> decide +kernel

theorem findings_rename (p : Pipeline) (name : String) :
    Validation.ofPipeline { p with name } = Validation.ofPipeline p := rfl

/-- A name that is read as itself changes nothing behind it. -/
theorem tokens?_render_of_verbatim {t : Template} {name : String} (hname : Verbatim name.toList)
    {ts : List Token} (hts : t.endingTokens = some ts) :
    tokens? (t.render name) = some (opening name ++ ts) := by
  let quote : Cursor := ⟨'"' :: (name.toList ++ '"' :: t.ending), 0, 6⟩
  have hquote : quote.rest = '"' :: (name.toList ++ '"' :: t.ending) := rfl
  obtain ⟨line, column, hread⟩ := readQuoted_self hname.bare hname.unfolded hquote
  obtain ⟨later, hlater⟩ := Lexer.reads_on t.ending.length (behindName t.ending 0)
  have hsame : later = some ts := by
    have halone := hlater ⟨1, 0, [], []⟩ Nat.one_pos ⟨by simp, by simp⟩
    rw [← endingTokens, hts] at halone
    simpa [Lexer.resolve] using halone.symm
  subst hsame
  have hrun := hlater (named name (line + 2)) (Nat.succ_pos _) (closed_named _ _)
  obtain ⟨r, hr, htokens⟩ := Option.map_eq_some_iff.1 hrun
  rw [tokens?_render, if_pos (List.all_eq_true.2 hname.allowed), hread, Option.bind_some]
  simp only [String.ofList_toList]
  rw [run_behindName, Lexer.run_mono hr, Option.map_some, htokens]
  rfl

/-- A definition rendered from any of the templates loads under its name, and without errors,
exactly if the name is read from between double quotes as it is. -/
theorem loads_under_its_name_iff (t : Template) (name : String) :
    (∃ p, Pipeline.ofText .yaml (t.render name) = .ok p ∧ p.name = name ∧
      (Validation.ofPipeline p).errors = []) ↔ Verbatim name.toList := by
  have hload : ∀ p, Pipeline.ofText .yaml (t.render name) = .ok p ↔
      Pipeline.ofYaml? (t.render name) = some p := by
    intro p
    rw [Pipeline.ofText]
    cases Pipeline.ofYaml? (t.render name) <;> simp
  simp only [hload]
  constructor
  · rintro ⟨p, hp, hname, -⟩
    obtain ⟨hallowed, d, hread⟩ := readQuoted_of_ofYaml? hp
    rw [hname, ← String.ofList_toList (s := name)] at hread
    simp only [String.toList_ofList] at hread
    obtain ⟨hbare, hkept⟩ := kept_of_readQuoted_self rfl hread
    exact ⟨List.all_eq_true.1 hallowed, hbare, hkept⟩
  · intro hname
    obtain ⟨p, hsample, hvalid⟩ := Option.any_eq_true _ _ |>.1 t.isValid_sample
    obtain ⟨ts, hts, hp⟩ := Option.bind_eq_some_iff.1 hsample
    refine ⟨{ p with name }, ?_, rfl, ?_⟩
    · rw [ofYaml?_eq, tokens?_render_of_verbatim hname hts, Option.bind_some,
        definition?_opening "" name, hp]
      rfl
    · rw [findings_rename]
      exact List.isEmpty_iff.1 hvalid

end Template
end Conveyor
