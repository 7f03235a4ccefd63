/-!
# Conveyor.Text.Search

Finding and replacing one text inside another.

* `Text.occursIn`   — a pattern occurs somewhere in a text.
* `Text.replaceAll` — every non-overlapping occurrence, taken from the left, is replaced.
* `Text.splitOnce`  — the two parts around the first separator.
* `Text.splitOn`    — the parts between all separators.
-/

namespace Conveyor
namespace Text

/-- `dropPrefix p s` is what follows `p` at the start of `s`, if `s` starts with `p`. -/
def dropPrefix : List Char → List Char → Option (List Char)
  | [], s => some s
  | _ :: _, [] => none
  | p :: ps, c :: cs => if p = c then dropPrefix ps cs else none

theorem dropPrefix_eq_some_iff {p s r : List Char} : dropPrefix p s = some r ↔ s = p ++ r := by
  induction p generalizing s with
  | nil => simp [dropPrefix]
  | cons p ps ih =>
    cases s with
    | nil => simp [dropPrefix]
    | cons c cs =>
      by_cases h : p = c
      · subst h; simp [dropPrefix, ih]
      · simp [dropPrefix, h, Ne.symm h]

def occursIn (pat : List Char) : List Char → Bool
  | [] => pat.isEmpty
  | c :: cs => (dropPrefix pat (c :: cs)).isSome || occursIn pat cs

/-- `skip` counts the characters of an occurrence that was just replaced and is still being
passed over. -/
def replaceFrom (pat new : List Char) : Nat → List Char → List Char
  | _, [] => []
  | 0, c :: cs =>
    if (dropPrefix pat (c :: cs)).isSome then new ++ replaceFrom pat new (pat.length - 1) cs
    else c :: replaceFrom pat new 0 cs
  | skip + 1, _ :: cs => replaceFrom pat new skip cs

/-- Replaces the occurrences of a non-empty `pat`, taken from the left without overlap. -/
def replaceAll (pat new text : List Char) : List Char := replaceFrom pat new 0 text

def contains (text pat : String) : Bool := occursIn pat.toList text.toList

def startsWith (text pat : String) : Bool := (dropPrefix pat.toList text.toList).isSome

def endsWith (text pat : String) : Bool :=
  (dropPrefix pat.toList.reverse text.toList.reverse).isSome

/-- The parts before and after the first `sep`. -/
def splitOnce (sep : Char) : List Char → Option (List Char × List Char)
  | [] => none
  | c :: cs =>
    if c = sep then some ([], cs)
    else (splitOnce sep cs).map fun (a, b) => (c :: a, b)

theorem splitOnce_append {sep : Char} {a : List Char} (h : sep ∉ a) (b : List Char) :
    splitOnce sep (a ++ sep :: b) = some (a, b) := by
  induction a with
  | nil => simp [splitOnce]
  | cons c cs ih =>
    obtain ⟨hc, hcs⟩ := not_or.1 (mt List.mem_cons.2 h)
    rw [List.cons_append, splitOnce, if_neg (Ne.symm hc), ih hcs]
    rfl

/-- A text that is cut at a character tells the parts, if the first ones do not have it. -/
theorem append_cons_inj {sep : Char} {a a' b b' : List Char} (h : sep ∉ a) (h' : sep ∉ a') :
    a ++ sep :: b = a' ++ sep :: b' ↔ a = a' ∧ b = b' := by
  constructor
  · intro heq
    have hparts := splitOnce_append h b
    rw [heq, splitOnce_append h'] at hparts
    obtain ⟨ha, hb⟩ := Prod.mk.inj (Option.some.inj hparts)
    exact ⟨ha.symm, hb.symm⟩
  · rintro ⟨rfl, rfl⟩
    rfl

theorem splitOnce_eq_some_iff {sep : Char} {s a b : List Char} :
    splitOnce sep s = some (a, b) ↔ s = a ++ sep :: b ∧ sep ∉ a := by
  refine ⟨fun h => ?_, fun ⟨hs, hnot⟩ => hs ▸ splitOnce_append hnot b⟩
  induction s generalizing a with
  | nil => cases h
  | cons c cs ih =>
    rw [splitOnce] at h
    split at h
    · rename_i hc
      cases h
      exact ⟨by rw [hc]; rfl, List.not_mem_nil⟩
    · rename_i hc
      obtain ⟨⟨a', b'⟩, hcs, heq⟩ := Option.map_eq_some_iff.1 h
      cases heq
      obtain ⟨rfl, hnot⟩ := ih hcs
      exact ⟨rfl, fun hmem => (List.mem_cons.1 hmem).elim (fun hsep => hc hsep.symm) hnot⟩

/-- The parts between the separators, with empty ones. There is one more than separators. -/
def splitOn (sep : Char) : List Char → List (List Char)
  | [] => [[]]
  | c :: cs =>
    if c = sep then [] :: splitOn sep cs
    else
      match splitOn sep cs with
      | [] => [[c]]
      | part :: parts => (c :: part) :: parts

end Text
end Conveyor
