import Conveyor.Shell.Script
import Conveyor.Text.Search

/-!
# Conveyor.Shell.Reader

Reading the script of a shell.

* `Input`        — what is left of the script, with the number of the line.
* `pieces`       — the parts of a word.
* `commands`     — commands up to a word or sign that ends them.
* `Script.parse` — the lines of a script.

Readers recurse on a fuel that the length of the script bounds.
-/

namespace Conveyor
namespace Shell

structure Input where
  rest : Bytes
  line : Nat := 1
  deriving Inhabited

/-- After a flaw the state tells how far the reading came. -/
abbrev Read := ExceptT Flaw (StateM Input)

namespace Read

def peek : Read (Option Char) := do return (← get).rest.head?

def sees (s : String) : Read Bool := do
  return (← get).rest.take s.length = s.toList

def advance : Read Unit :=
  modify fun i =>
    match i.rest with
    | [] => i
    | c :: rest => { rest, line := if c = '\n' then i.line + 1 else i.line }

def advanceBy : Nat → Read Unit
  | 0 => return
  | n + 1 => do
    advance
    advanceBy n

def take? (s : String) : Read Bool := do
  if ← sees s then
    advanceBy s.length
    return true
  else return false

def takeWhile (p : Char → Bool) : Read Bytes := do
  let s := (← get).rest.takeWhile p
  advanceBy s.length
  return s

def fuelOf : Read Nat := do return (← get).rest.length + 1

/-! ## Blanks -/

def skipBlanks : Nat → Read Unit
  | 0 => return
  | fuel + 1 => do
    discard (takeWhile fun c => c = ' ' || c = '\t')
    if ← take? "\\\n" then skipBlanks fuel
    else if ← sees "#" then discard (takeWhile (· ≠ '\n'))

def blanks : Read Unit := do skipBlanks (← fuelOf)

def skipLines : Nat → Read Unit
  | 0 => return
  | fuel + 1 => do
    blanks
    if ← take? "\n" then skipLines fuel

/-- Goes on over blanks, comments and empty lines. -/
def emptyLines : Read Unit := do skipLines (← fuelOf)

/-! ## Words -/

def isNameStart (c : Char) : Bool := c.isAlpha || c = '_'

def isNameChar (c : Char) : Bool := c.isAlphanum || c = '_'

/-- The parameters of one character that is no letter. -/
def isSpecial (c : Char) : Bool := c.isDigit || "?#@*$!-".toList.contains c

/-- A sign that ends a word. -/
def isMeta (c : Char) : Bool := " \t\n;&|<>()".toList.contains c

def singleQuoted : Nat → Bytes → Read Bytes
  | 0, _ => throw .unterminatedQuote
  | fuel + 1, acc => do
    match ← peek with
    | none => throw .unterminatedQuote
    | some c =>
      advance
      if c = '\'' then return acc.reverse else singleQuoted fuel (c :: acc)

/-- The text of a command between backquotes. A backslash takes the meaning of some signs, of a
quote only inside quotes. -/
def backquoted (quoted : Bool) : Nat → Bytes → Read Bytes
  | 0, _ => throw .unterminatedBackquote
  | fuel + 1, acc => do
    match ← peek with
    | none => throw .unterminatedBackquote
    | some '`' =>
      advance
      return acc.reverse
    | some '\\' =>
      advance
      match ← peek with
      | none => throw .unterminatedBackquote
      | some c =>
        advance
        if c = '`' || c = '$' || c = '\\' || quoted && c = '"' then
          backquoted quoted fuel (c :: acc)
        else backquoted quoted fuel (c :: '\\' :: acc)
    | some c =>
      advance
      backquoted quoted fuel (c :: acc)

/-- The text of a calculation up to the two parentheses that close it. -/
def calculation : Nat → Nat → Bytes → Read Bytes
  | 0, _, _ => throw (.missing "))")
  | fuel + 1, depth, acc => do
    match ← peek with
    | none => throw (.missing "))")
    | some '(' =>
      advance
      calculation fuel (depth + 1) ('(' :: acc)
    | some ')' =>
      if depth = 0 then
        if ← take? "))" then return acc.reverse else throw (.missing "))")
      else
        advance
        calculation fuel (depth - 1) (')' :: acc)
    | some c =>
      advance
      calculation fuel depth (c :: acc)

/-- The action between the name and the word of an expansion. -/
def action : Read Action := do
  let orEmpty ← take? ":"
  if ← take? "-" then return .default orEmpty
  else if ← take? "=" then return .assign orEmpty
  else if ← take? "?" then return .demand orEmpty
  else if ← take? "+" then return .alternative orEmpty
  else if orEmpty then return .unknown
  else if ← take? "##" then return .dropStart true
  else if ← take? "#" then return .dropStart false
  else if ← take? "%%" then return .dropEnd true
  else if ← take? "%" then return .dropEnd false
  else return .unknown

/-- The name of a parameter between braces, empty where there is none. -/
def braceName : Read Bytes := do
  match ← peek with
  | none => throw (.missing "\x7d")
  | some c =>
    if isNameStart c then takeWhile isNameChar
    else if c.isDigit then takeWhile Char.isDigit
    else if isSpecial c then
      advance
      return [c]
    else return []

def endBrace : Read Unit := do
  if !(← take? "\x7d") then throw (.missing "\x7d")

/-- Where the parts of a word stand. -/
structure Context where
  quoted : Bool
  /-- Quotes are signs, not text. -/
  quotes : Bool := true
  stop : Char → Bool

/-- Text in front of other pieces. -/
def joinText (c : Char) (quoted : Bool) : List Piece → List Piece
  | .text s q :: rest =>
    if q = quoted then .text (c :: s) q :: rest else .text [c] quoted :: .text s q :: rest
  | ps => .text [c] quoted :: ps

/-! ## Here documents -/

def linesTo (stop : Bytes) (strip : Bool) : List Bytes → List Bytes × List Bytes
  | [] => ([], [])
  | l :: rest =>
    let l := if strip then l.dropWhile (· = '\t') else l
    if l = stop then ([], rest)
    else
      let (body, rest) := linesTo stop strip rest
      (l :: body, rest)

/-- Takes the text of a here document out of the lines after this one. -/
def hereText (stop : Bytes) (strip : Bool) : Read Bytes :=
  modifyGet fun i =>
    let here := i.rest.takeWhile (· ≠ '\n')
    let (body, rest) := linesTo stop strip (Text.splitOn '\n' (i.rest.drop (here.length + 1)))
    (body.flatMap (· ++ ['\n']), { i with rest := here ++ '\n' :: ['\n'].intercalate rest })

/-! ## Words of commands -/

def keywords : List String :=
  ["if", "then", "else", "elif", "fi", "do", "done", "while", "until", "for", "case", "esac",
    "\x7b", "\x7d", "!", "in"]

/-- The words before which commands end. -/
def closers : List String := ["then", "else", "elif", "fi", "do", "done", "esac", "\x7d"]

/-- The text in a piece. -/
def literal : Piece → Bytes
  | .text s _ => s
  | _ => []

/-- The unquoted text that a word consists of. -/
def plainWord? : List Piece → Option String
  | [.text s false] => some (String.ofList s)
  | _ => none

/-- The word that comes next, if it is plain text; nothing is read. -/
def nextWord : Read (Option String) := do
  blanks
  let s := (← get).rest.takeWhile fun c => !isMeta c
  return if s.isEmpty || s.any fun c => "'\"\\$`".toList.contains c then none
    else some (String.ofList s)

/-- The name and the value of a word that is an assignment. -/
def assignment? : List Piece → Option (Bytes × List Piece)
  | .text s false :: rest =>
    let name := s.takeWhile isNameChar
    match s.drop name.length with
    | '=' :: value =>
      if name.head?.any isNameStart then
        some (name, if value.isEmpty then rest else .text value false :: rest)
      else none
    | _ => none
  | _ => none

/-- What stands here, as messages name it. -/
def describe (word : Option String) : Read String := do
  match ← peek with
  | none => return "end of file"
  | some '\n' => return "newline"
  | some c =>
    if c = '<' ∨ c = '>' then return "redirection"
    else if isMeta c then
      let two := String.ofList ((← get).rest.take 2)
      let sign := if ["&&", "||", ";;", ">>", "<<", ">&", "<&"].contains two then two
        else String.singleton c
      return "\"" ++ sign ++ "\""
    else
      match word with
      | some w => return if keywords.contains w then "\"" ++ w ++ "\"" else "word"
      | none => return "word"

def keyword (w : String) : Read Unit := do
  emptyLines
  let next ← nextWord
  if next = some w then advanceBy w.length
  else throw (.unexpected (← describe next) (some ("\"" ++ w ++ "\"")))

/-- Reads another text in the place of what comes next. -/
def within {α : Type} (text : Bytes) (x : Read α) : Read α := do
  let after ← get
  set ({ rest := text, line := after.line } : Input)
  let result ← x
  set after
  return result

mutual

/-- The parts of a word up to a character at which it stops. Between double quotes only dollars,
backquotes and backslashes are more than text. -/
def pieces : Nat → Context → Read (List Piece)
  | 0, _ => return []
  | fuel + 1, context => do
    let quoted := context.quoted
    match ← peek with
    | none => return []
    | some c =>
      if context.stop c then return []
      else if c = '\\' then
        advance
        match ← peek with
        | none => return [.text ['\\'] quoted]
        | some d =>
          advance
          if d = '\n' then pieces fuel context
          else if quoted && !("$`\\".toList.contains d || context.quotes && d = '"' ||
              context.stop d) then
            return joinText '\\' true (joinText d true (← pieces fuel context))
          else return joinText d true (← pieces fuel context)
      else if c = '\'' ∧ !quoted then
        advance
        let s ← singleQuoted (← fuelOf) []
        return .text s true :: (← pieces fuel context)
      else if c = '"' ∧ context.quotes then
        advance
        let inner ← pieces fuel { quoted := true, stop := (· = '"') }
        if !(← take? "\"") then throw .unterminatedQuote
        let inner := if inner.isEmpty then [.text [] true] else inner
        return inner ++ (← pieces fuel context)
      else if c = '`' then
        advance
        let text ← backquoted quoted (← fuelOf) []
        let script ← within text (commands fuel)
        return .output script quoted :: (← pieces fuel context)
      else if c = '$' then
        advance
        let p ← dollar fuel quoted
        return p :: (← pieces fuel context)
      else
        advance
        return joinText c quoted (← pieces fuel context)

def dollar : Nat → Bool → Read Piece
  | 0, quoted => return .text ['$'] quoted
  | fuel + 1, quoted => do
    if ← take? "((" then
      let text ← calculation (← fuelOf) 0 []
      let body ← within text
        (pieces fuel { quoted := true, quotes := false, stop := fun _ => false })
      return .arithmetic body quoted
    else if ← take? "(" then
      let script ← commands fuel
      if !(← take? ")") then throw (.unexpected (← describe (← nextWord)) (some "\")\""))
      return .output script quoted
    else if ← take? "\x7b" then brace fuel quoted
    else
      match ← peek with
      | none => return .text ['$'] quoted
      | some c =>
        if isNameStart c then return .parameter (← takeWhile isNameChar) .plain [] quoted
        else if isSpecial c then
          advance
          return .parameter [c] .plain [] quoted
        else return .text ['$'] quoted

def brace : Nat → Bool → Read Piece
  | 0, quoted => return .text [] quoted
  | fuel + 1, quoted => do
    let start ← get
    if (← take? "#") && !(← sees "\x7d") then
      let name ← braceName
      if ← take? "\x7d" then return .parameter name .length [] quoted
    set start
    let name ← braceName
    if ← take? "\x7d" then
      return .parameter name (if name.isEmpty then .unknown else .plain) [] quoted
    else
      let action ← if name.isEmpty then pure .unknown else action
      let word ← pieces fuel { quoted, stop := (· = '\x7d') }
      endBrace
      return .parameter name action word quoted

def word : Nat → Read (Option (List Piece))
  | 0 => return none
  | fuel + 1 => do
    blanks
    match ← peek with
    | none => return none
    | some c =>
      if isMeta c then return none
      else
        let ps ← pieces fuel { quoted := false, stop := isMeta }
        if ps.isEmpty then return none else return some ps

/-- A here document. If any of its last word is quoted, it is text alone. -/
def hereDocument : Nat → Read (List Piece)
  | 0 => return []
  | fuel + 1 => do
    let strip ← take? "-"
    match ← word fuel with
    | none => throw (.unexpected (← describe none) none)
    | some stop =>
      let text ← hereText (stop.flatMap literal) strip
      if (plainWord? stop).isSome then
        within text (pieces fuel { quoted := true, quotes := false, stop := fun _ => false })
      else return [.text text true]

def redirect : Nat → Read (Option Redirect)
  | 0 => return none
  | fuel + 1 => do
    blanks
    let start ← get
    let digits ← takeWhile Char.isDigit
    if ← take? "<<" then return some (.mk 0 .here (← hereDocument fuel))
    let kind : Option (RedirectKind × Nat) ←
      if ← take? ">>" then pure (some (.append, 1))
      else if ← take? ">&" then pure (some (.duplicate, 1))
      else if ← take? ">|" then pure (some (.write, 1))
      else if ← take? ">" then pure (some (.write, 1))
      else if ← take? "<&" then pure (some (.duplicate, 0))
      else if ← take? "<" then pure (some (.read, 0))
      else pure none
    match kind with
    | none =>
      set start
      return none
    | some (kind, standard) =>
      match ← word fuel with
      | none => throw (.unexpected (← describe none) none)
      | some target =>
        let descriptor := if digits.isEmpty then standard
          else digits.foldl (fun n d => 10 * n + (d.toNat - 48)) 0
        return some (.mk descriptor kind target)

def redirects : Nat → Read (List Redirect)
  | 0 => return []
  | fuel + 1 => do
    match ← redirect fuel with
    | none => return []
    | some r => return r :: (← redirects fuel)

/-- The words and redirections of a simple command; words and redirections are in reverse. -/
def simple : Nat → Nat → List (Bytes × List Piece) → List (List Piece) → List Redirect →
    Read Command
  | 0, line, assignments, words, targets =>
    return .simple line assignments.reverse words.reverse targets.reverse
  | fuel + 1, line, assignments, words, targets => do
    match ← redirect fuel with
    | some r => simple fuel line assignments words (r :: targets)
    | none =>
      match ← word fuel with
      | none => return .simple line assignments.reverse words.reverse targets.reverse
      | some w =>
        match (if words.isEmpty then assignment? w else none) with
        | some a => simple fuel line (a :: assignments) words targets
        | none => simple fuel line assignments (w :: words) targets

/-- Commands, at least one unless the script ends here: the word that must follow is missed
then. -/
def someCommands : Nat → Read (List Command)
  | 0 => return []
  | fuel + 1 => do
    let cs ← commands fuel
    if cs.isEmpty && (← peek).isSome then throw (.unexpected (← describe (← nextWord)) none)
    else return cs

def branchTail : Nat → List Command → Read Command
  | 0, test => return .branch test [] [] []
  | fuel + 1, test => do
    keyword "then"
    let body ← someCommands fuel
    match ← nextWord with
    | some "elif" =>
      keyword "elif"
      let test' ← someCommands fuel
      let other ← branchTail fuel test'
      return .branch test body [other] []
    | some "else" =>
      keyword "else"
      let other ← someCommands fuel
      keyword "fi"
      return .branch test body other []
    | _ =>
      keyword "fi"
      return .branch test body [] []

def doBody : Nat → Read (List Command)
  | 0 => return []
  | fuel + 1 => do
    keyword "do"
    let body ← someCommands fuel
    keyword "done"
    return body

def wordList : Nat → Read (List (List Piece))
  | 0 => return []
  | fuel + 1 => do
    match ← word fuel with
    | none => return []
    | some w => return w :: (← wordList fuel)

def patterns : Nat → Read (List (List Piece))
  | 0 => return []
  | fuel + 1 => do
    match ← word fuel with
    | none => throw (.unexpected (← describe none) (some "\")\""))
    | some w =>
      blanks
      if ← take? "|" then return w :: (← patterns fuel)
      else if ← take? ")" then return [w]
      else throw (.unexpected (← describe (← nextWord)) (some "\")\""))

def cases : Nat → Read (List (List (List Piece) × List Command))
  | 0 => return []
  | fuel + 1 => do
    emptyLines
    if (← nextWord) = some "esac" then
      keyword "esac"
      return []
    else
      discard (take? "(")
      let ps ← patterns fuel
      let body ← commands fuel
      emptyLines
      if ← take? ";;" then return (ps, body) :: (← cases fuel)
      else if (← nextWord) = some "esac" then
        keyword "esac"
        return [(ps, body)]
      else throw (.unexpected (← describe (← nextWord)) (some "\";;\""))

def compound : Nat → Read (Option (List Redirect → Command))
  | 0 => return none
  | fuel + 1 => do
    blanks
    if ← take? "(" then
      let body ← someCommands fuel
      if !(← take? ")") then
        throw (.unexpected (← describe (← nextWord)) (some "\")\""))
      return some (.subshell body)
    else
      match ← nextWord with
      | some "\x7b" =>
        keyword "\x7b"
        let body ← someCommands fuel
        keyword "\x7d"
        return some (.group body)
      | some "if" =>
        keyword "if"
        let test ← someCommands fuel
        match ← branchTail fuel test with
        | .branch test body other _ => return some (.branch test body other)
        | c => return some (.group [c])
      | some "while" =>
        keyword "while"
        let test ← someCommands fuel
        return some (.loop false test (← doBody fuel))
      | some "until" =>
        keyword "until"
        let test ← someCommands fuel
        return some (.loop true test (← doBody fuel))
      | some "for" =>
        keyword "for"
        blanks
        let name ← takeWhile isNameChar
        if !(name.head?.any isNameStart) then throw .badLoopVariable
        emptyLines
        if (← nextWord) = some "in" then
          keyword "in"
          let words ← wordList fuel
          blanks
          discard (take? ";")
          return some (.each name (some words) (← doBody fuel))
        else
          discard (take? ";")
          return some (.each name none (← doBody fuel))
      | some "case" =>
        keyword "case"
        match ← word fuel with
        | none => throw (.unexpected (← describe none) none)
        | some w =>
          keyword "in"
          return some (.choose w (← cases fuel))
      | _ => return none

def command : Nat → Read Command
  | 0 => return .simple 0 [] [] []
  | fuel + 1 => do
    blanks
    match ← compound fuel with
    | some make => return make (← redirects fuel)
    | none =>
      let next ← nextWord
      let start ← get
      match next with
      | some w =>
        if closers.contains w then throw (.unexpected (← describe next) none)
        advanceBy w.length
        blanks
        if ← take? "(" then
          blanks
          if !(← take? ")") then throw (.unexpected (← describe none) (some "\")\""))
          emptyLines
          return .define w.toList (← command fuel)
      | none => pure ()
      set start
      match ← simple fuel (← get).line [] [] [] with
      | .simple _ [] [] [] => throw (.unexpected (← describe none) none)
      | c => return c

def pipes : Nat → Read (List Command)
  | 0 => return []
  | fuel + 1 => do
    let c ← command fuel
    blanks
    if (← sees "|") && !(← sees "||") then
      advance
      emptyLines
      return c :: (← pipes fuel)
    else return [c]

def pipeline : Nat → Read Command
  | 0 => return .simple 0 [] [] []
  | fuel + 1 => do
    blanks
    if (← nextWord) = some "!" then
      keyword "!"
      return .pipeline true (← pipes fuel)
    else
      match ← pipes fuel with
      | [c] => return c
      | cs => return .pipeline false cs

/-- What follows a pipeline on its line. -/
def andOr : Nat → Command → Read Command
  | 0, c => return c
  | fuel + 1, c => do
    blanks
    if ← take? "&&" then
      emptyLines
      andOr fuel (.both c (← pipeline fuel))
    else if ← take? "||" then
      emptyLines
      andOr fuel (.either c (← pipeline fuel))
    else return c

/-- Commands with semicolons between them, on one line or on several. -/
def commandsFrom : Nat → Bool → Read (List Command)
  | 0, _ => return []
  | fuel + 1, oneLine => do
    if !oneLine then emptyLines else blanks
    let next ← nextWord
    match ← peek, next with
    | none, _ => return []
    | some ')', _ | some '\n', _ => return []
    | _, some w => if closers.contains w then return [] else commandsRest fuel oneLine
    | some _, none => if ← sees ";;" then return [] else commandsRest fuel oneLine

def commandsRest : Nat → Bool → Read (List Command)
  | 0, _ => return []
  | fuel + 1, oneLine => do
    let c ← andOr fuel (← pipeline fuel)
    blanks
    if (← sees ";") && !(← sees ";;") then
      advance
      return c :: (← commandsFrom fuel oneLine)
    else if ← take? "&" then return .background c :: (← commandsFrom fuel oneLine)
    else if (← sees "\n") && !oneLine then return c :: (← commandsFrom fuel oneLine)
    else return [c]

def commands : Nat → Read (List Command)
  | 0 => return []
  | fuel + 1 => commandsFrom fuel false

end

def oneLine (fuel : Nat) : Read (List Command) := do
  let cs ← commandsFrom fuel true
  blanks
  match ← peek with
  | none | some '\n' => return cs
  | some _ => throw (.unexpected (← describe (← nextWord)) none)

end Read

namespace Script

/-- The lines that are left, as far as the fuel goes: one for every line. -/
def parseFrom (size : Nat) : Nat → Input → Script
  | 0, _ => {}
  | fuel + 1, i =>
    match (do
      Read.emptyLines
      if (← Read.peek).isNone then return none else some <$> Read.oneLine size : Read _) |>.run i
    with
    | (.error flaw, i) => { flaw := some (i.line, flaw) }
    | (.ok none, _) => {}
    | (.ok (some line), i) =>
      let rest := parseFrom size fuel i
      { rest with lines := line :: rest.lines }

def parse (source : Bytes) : Script :=
  parseFrom (16 * source.length + 64) (source.length + 1) { rest := source }

end Script
end Shell
end Conveyor
