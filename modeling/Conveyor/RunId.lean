/-!
# Conveyor.RunId

The identity of a run, a UUID.

* `RunId.parse?` — reads the plain and the hyphenated form, the latter also in braces or as a
                   URN.
* `RunId.text`   — the hyphenated form in lower case.
-/

namespace Conveyor

/-- The 32 hexadecimal digits, in lower case. -/
structure RunId where
  digits : List Char
  deriving DecidableEq, Repr, Inhabited

namespace RunId

def nil : RunId := ⟨List.replicate 32 '0'⟩

def isHexDigit (c : Char) : Bool :=
  c.isDigit || ('a' ≤ c && c ≤ 'f') || ('A' ≤ c && c ≤ 'F')

/-- Thirty-two digits and nothing else. -/
def ofDigits? (s : List Char) : Option RunId :=
  if s.length = 32 ∧ s.all isHexDigit then some ⟨s.map Char.toLower⟩ else none

/-- Five groups of digits with hyphens between them. -/
def ofHyphenated? (s : List Char) : Option RunId :=
  let marks := [8, 13, 18, 23]
  if s.length = 36 ∧ marks.all (fun i => s[i]? = some '-') then
    ofDigits? (s.take 8 ++ (s.drop 9).take 4 ++ (s.drop 14).take 4 ++ (s.drop 19).take 4 ++
      s.drop 24)
  else none

def urn : List Char := "urn:uuid:".toList

def parse? (text : String) : Option RunId :=
  let s := text.toList
  if s.length = 32 then ofDigits? s
  else if s.length = 36 then ofHyphenated? s
  else if s.length = 38 ∧ s.head? = some '\x7b' ∧ s.getLast? = some '\x7d' then
    ofHyphenated? ((s.drop 1).take 36)
  else if s.length = 45 ∧ s.take 9 = urn then ofHyphenated? (s.drop 9)
  else none

/-- An identity of random digits: those of the version and of the variant are set. -/
def ofRandom (digits : List Nat) : RunId :=
  let hex := fun n => (Nat.toDigits 16 (n % 16)).headD '0'
  let all := (digits ++ List.replicate 32 0).take 32
  let all := all.set 12 4
  ⟨(all.set 16 (8 + all.getD 16 0 % 4)).map hex⟩

def text (id : RunId) : String :=
  let d := id.digits
  String.ofList (d.take 8 ++ '-' :: (d.drop 8).take 4 ++ '-' :: (d.drop 12).take 4 ++
    '-' :: (d.drop 16).take 4 ++ '-' :: d.drop 20)

end RunId
end Conveyor
