import Conveyor.Json.Printer
import Conveyor.Json.Reader

/-!
# Conveyor.Proofs.Json.RoundTrip

What is written is read back.

A reader takes its value from the front of a text, so the text of a value is read in front of any
other text. The texts of values do not run into what follows, numbers excepted: the digits of
whatever comes next would be taken for digits of the number. So what follows must not go on with
one (`Stops`). The readers recurse on fuel, and the length of the text is enough of it.

* `Json.Plain`        — a value that is written in a form of its own.
* `Json.Stops`        — a text that no number runs into.
* `readString_quoted` — a string is read back from its quoted form.
* `readValue_compact` — a value is read back from its compact form, whatever follows.
* `parse?_compact`    — the compact form is a text of the value and of nothing else.
-/

namespace Conveyor
namespace Json

/-- A value that is written in a form of its own. Numbers that were kept as they are written and
half of a surrogate pair are not: the one may be written like an integer, the other is written
like the empty string. -/
inductive Plain : Json → Prop where
  | null : Plain .null
  | bool {b : Bool} : Plain (.bool b)
  | int {n : Int} : Plain (.int n)
  | str {s : String} : Plain (.str s)
  | arr {items : List Json} : (∀ j ∈ items, Plain j) → Plain (.arr items)
  | obj {fields : List (String × Json)} : (∀ f ∈ fields, Plain f.2) → Plain (.obj fields)

/-- The text does not go on with a number. -/
def Stops (s : List Char) : Prop :=
  ∀ c ∈ s.head?, isDigit c = false ∧ c ≠ '.' ∧ c ≠ 'e' ∧ c ≠ 'E'

theorem stops_nil : Stops [] := nofun

theorem stops_cons {c : Char} {s : List Char}
    (h : isDigit c = false ∧ c ≠ '.' ∧ c ≠ 'e' ∧ c ≠ 'E') : Stops (c :: s) := by
  rintro _ ⟨⟩
  exact h

variable {s rest : List Char} {c : Char} {fuel n : Nat}

/-! ## Strings -/

theorem hexValue?_hexDigit : ∀ n < 16, Text.hexValue? (hexDigit n) = some n := by decide

theorem escapeChar_ne_nil (c : Char) : escapeChar c ≠ [] := by
  unfold escapeChar
  repeat' split
  all_goals exact List.cons_ne_nil _ _

theorem readEscape_hex (hc : c.toNat < 32) :
    readEscape ('u' :: '0' :: '0' :: hexDigit (c.toNat / 16) :: hexDigit (c.toNat % 16) :: rest) =
      some (some c, rest) := by
  have hzero : Text.hexValue? '0' = some 0 := by decide
  have hhigh := hexValue?_hexDigit (c.toNat / 16) (by omega)
  have hlow := hexValue?_hexDigit (c.toNat % 16) (by omega)
  have hvalue : ((0 * 16 + 0) * 16 + c.toNat / 16) * 16 + c.toNat % 16 = c.toNat := by omega
  have hpair : ¬ (0xD800 ≤ c.toNat ∧ c.toNat ≤ 0xDBFF) := by omega
  have hhalf : ¬ (0xDC00 ≤ c.toNat ∧ c.toNat ≤ 0xDFFF) := by omega
  simp only [readEscape, readHex4, hzero, hhigh, hlow, hvalue, hpair, hhalf, if_false,
    Char.ofNat_toNat]

theorem readStringTail_escapeChar (acc : List Char) :
    readStringTail (fuel + 1) (some acc) (escapeChar c ++ rest) =
      readStringTail fuel (some (c :: acc)) rest := by
  unfold escapeChar
  -- quote, backslash, and the blanks that have a letter
  iterate 5
    split
    · rename_i hc
      subst hc
      rfl
  -- backspace and form feed, which are written by their numbers
  iterate 2
    split
    · rename_i hc
      rw [← Char.ofNat_toNat c, hc]
      rfl
  split
  · rename_i hc
    simp only [List.cons_append, List.nil_append, readStringTail, readEscape_hex hc]
    rfl
  · rename_i hquote hslash _ _ _ _ _ hc
    simp only [List.cons_append, List.nil_append, readStringTail, hquote, hslash, hc, if_false]
    rfl

theorem readStringTail_escaped (hfuel : s.length < fuel) (acc : List Char) :
    readStringTail fuel (some acc) (s.flatMap escapeChar ++ '"' :: rest) =
      some (some (String.ofList (acc.reverse ++ s)), rest) := by
  induction s generalizing fuel acc with
  | nil =>
    obtain ⟨fuel, rfl⟩ := Nat.exists_eq_add_of_lt hfuel
    rw [List.append_nil]
    rfl
  | cons c cs ih =>
    cases fuel with
    | zero => cases hfuel
    | succ fuel =>
      rw [List.flatMap_cons, List.append_assoc, readStringTail_escapeChar,
        ih (Nat.lt_of_succ_lt_succ hfuel), List.reverse_cons, List.append_assoc]
      rfl

theorem length_le_escaped (s : List Char) : s.length ≤ (s.flatMap escapeChar).length := by
  induction s with
  | nil => exact Nat.le_refl _
  | cons c cs ih =>
    have hpos := List.length_pos_iff.2 (escapeChar_ne_nil c)
    rw [List.flatMap_cons, List.length_append, List.length_cons]
    omega

theorem readString_quoted (s : String) (rest : List Char) :
    readString (s.toList.flatMap escapeChar ++ '"' :: rest) = some (some s, rest) := by
  have hfuel : s.toList.length < (s.toList.flatMap escapeChar ++ '"' :: rest).length + 1 := by
    have := length_le_escaped s.toList
    rw [List.length_append]
    omega
  rw [readString, readStringTail_escaped hfuel, List.reverse_nil, List.nil_append,
    String.ofList_toList]

/-! ## Numbers -/

theorem isDigit_of_mem_toDigits (h : c ∈ Nat.toDigits 10 n) : isDigit c = true :=
  Nat.isDigit_of_mem_toDigits (by omega) (by omega) h

theorem natOfDigits_toDigits (n : Nat) : natOfDigits (Nat.toDigits 10 n) = n :=
  Nat.ofDigitChars_toDigits (by omega) (by omega)

theorem head?_toDigits (h : 0 < n) : (Nat.toDigits 10 n).head? ≠ some '0' := by
  have hdigit : ∀ d < 10, 0 < d → Nat.digitChar d ≠ '0' := by decide
  induction n using Nat.strongRecOn with
  | ind n ih =>
    by_cases hn : n < 10
    · rw [Nat.toDigits_of_lt_base hn]
      exact fun hhead => hdigit n hn h (Option.some.inj hhead)
    · have hhigh := ih (n / 10) (by omega) (by omega)
      rw [Nat.toDigits_of_base_le (by omega) (by omega)]
      cases hlist : Nat.toDigits 10 (n / 10) with
      | nil => exact absurd hlist Nat.toDigits_ne_nil
      | cons d ds =>
        rw [hlist] at hhigh
        exact hhigh

theorem readDigits_toDigits (n : Nat) (hrest : Stops rest) :
    readDigits (Nat.toDigits 10 n ++ rest) = some (Nat.toDigits 10 n, rest) := by
  have hdigits : ∀ c ∈ Nat.toDigits 10 n, isDigit c = true := fun _ => isDigit_of_mem_toDigits
  have hstop : rest.takeWhile isDigit = [] ∧ rest.dropWhile isDigit = rest := by
    cases rest with
    | nil => exact ⟨rfl, rfl⟩
    | cons c cs =>
      have hc := (hrest c rfl).1
      simp [hc]
  rw [readDigits, List.takeWhile_append_of_pos hdigits, List.dropWhile_append_of_pos hdigits,
    hstop.1, hstop.2, List.append_nil]
  cases hlist : Nat.toDigits 10 n with
  | nil => exact absurd hlist Nat.toDigits_ne_nil
  | cons => rfl

theorem readFraction_stops (h : Stops s) : readFraction s = some ([], s) := by
  unfold readFraction
  split
  · exact absurd rfl (h '.' rfl).2.1
  · rfl

theorem readExponent_stops (h : Stops s) : readExponent s = some ([], s) := by
  cases s with
  | nil => rfl
  | cons c cs =>
    obtain ⟨_, _, he, hE⟩ := h c rfl
    have hword : ¬ (c = 'e' ∨ c = 'E') := by simp [he, hE]
    simp only [readExponent, hword, if_false]

theorem readNumber_toDigits (negative : Bool) (n : Nat) (hn : negative = true → 0 < n)
    (hrest : Stops rest) : readNumber negative (Nat.toDigits 10 n ++ rest) =
      some (.int (if negative then - (n : Int) else n), rest) := by
  have hzero : ¬ ((Nat.toDigits 10 n).length > 1 ∧ (Nat.toDigits 10 n).head? = some '0') := by
    rintro ⟨hlength, hhead⟩
    rcases Nat.eq_zero_or_pos n with rfl | hpos
    · exact absurd hlength (by decide)
    · exact head?_toDigits hpos hhead
  have hsign : ¬ (negative = true ∧ n = 0) := fun ⟨hneg, h⟩ => absurd (hn hneg) (by omega)
  simp only [readNumber, readDigits_toDigits n hrest, hzero, readFraction_stops hrest,
    readExponent_stops hrest, natOfDigits_toDigits, if_false, List.isEmpty_nil, true_and,
    if_pos hsign]

theorem toList_negSucc (n : Nat) :
    (toString (Int.negSucc n)).toList = '-' :: Nat.toDigits 10 (n + 1) := by
  have htext : toString (Int.negSucc n) = "-" ++ (n + 1).repr := rfl
  rw [htext, String.toList_append, Nat.toList_repr]
  rfl

/-! ## How a text starts -/

/-- The text starts neither with white space nor with the end of an array. -/
def Opens (s : List Char) : Prop := ∃ c cs, s = c :: cs ∧ isSpace c = false ∧ c ≠ ']'

theorem skipSpace_opens (h : Opens s) (rest : List Char) : skipSpace (s ++ rest) = s ++ rest := by
  obtain ⟨c, cs, rfl, hc, _⟩ := h
  rw [skipSpace, List.cons_append, List.dropWhile_cons, hc]
  rfl

theorem isSpace_of_isDigit (hc : isDigit c = true) : isSpace c = false := by
  simp only [isSpace, Bool.or_eq_false_iff, decide_eq_false_iff_not]
  refine ⟨⟨⟨?_, ?_⟩, ?_⟩, ?_⟩
  all_goals
    rintro rfl
    exact absurd hc (by decide)

theorem toDigits_cons (n : Nat) : ∃ d ds, Nat.toDigits 10 n = d :: ds ∧ isDigit d = true := by
  cases hlist : Nat.toDigits 10 n with
  | nil => exact absurd hlist Nat.toDigits_ne_nil
  | cons d ds => exact ⟨d, ds, rfl, isDigit_of_mem_toDigits (hlist ▸ List.mem_cons_self)⟩

theorem opens_compact {j : Json} (h : j.Plain) : Opens (compactChars j) := by
  cases h with
  | null => exact ⟨'n', _, rfl, by decide, by decide⟩
  | @bool b =>
    cases b with
    | true => exact ⟨'t', _, rfl, by decide, by decide⟩
    | false => exact ⟨'f', _, rfl, by decide, by decide⟩
  | @int n =>
    cases n with
    | ofNat n =>
      obtain ⟨d, ds, hlist, hd⟩ := toDigits_cons n
      refine ⟨d, ds, Nat.toList_repr.trans hlist, isSpace_of_isDigit hd, ?_⟩
      rintro rfl
      exact absurd hd (by decide)
    | negSucc n => exact ⟨'-', _, toList_negSucc n, by decide, by decide⟩
  | str => exact ⟨'"', _, rfl, by decide, by decide⟩
  | arr => exact ⟨'[', _, rfl, by decide, by decide⟩
  | obj => exact ⟨'{', _, rfl, by decide, by decide⟩

theorem compactItems_cons (j k : Json) (items : List Json) : compactItems (j :: k :: items) =
    compactChars j ++ ',' :: compactItems (k :: items) := rfl

theorem compactFields_cons (f g : String × Json) (fields : List (String × Json)) :
    compactFields (f :: g :: fields) =
      quoted f.1 ++ ':' :: (compactChars f.2 ++ ',' :: compactFields (g :: fields)) := rfl

theorem opens_compactItems {j : Json} (h : j.Plain) (items : List Json) :
    Opens (compactItems (j :: items)) := by
  obtain ⟨c, cs, htext, hc⟩ := opens_compact h
  cases items with
  | nil => exact ⟨c, cs, htext, hc⟩
  | cons k rest => exact ⟨c, _, by rw [compactItems_cons, htext, List.cons_append], hc⟩

theorem opens_compactFields (f : String × Json) (fields : List (String × Json)) :
    Opens (compactFields (f :: fields)) := by
  cases fields with
  | nil => exact ⟨'"', _, rfl, by decide, by decide⟩
  | cons g rest => exact ⟨'"', _, rfl, by decide, by decide⟩

/-! ## Values -/

theorem readValue_digit (hc : isDigit c = true) :
    readValue (fuel + 1) (c :: s) = readNumber false (c :: s) := by
  rw [readValue]
  -- none of the characters that open another value is a digit
  all_goals
    rintro rfl
    exact absurd hc (by decide)

theorem readValue_int (n : Int) (hrest : Stops rest) :
    readValue (fuel + 1) ((toString n).toList ++ rest) = some (.int n, rest) := by
  cases n with
  | ofNat n =>
    have htext : (toString (Int.ofNat n)).toList = Nat.toDigits 10 n := Nat.toList_repr
    have hnumber := readNumber_toDigits false n nofun hrest
    obtain ⟨d, ds, hlist, hd⟩ := toDigits_cons n
    rw [hlist] at hnumber
    rw [htext, hlist, List.cons_append, readValue_digit hd]
    exact hnumber
  | negSucc n =>
    rw [toList_negSucc]
    exact readNumber_toDigits true (n + 1) (fun _ => Nat.succ_pos n) hrest

/-- The value is read back from its text, with as much fuel as the text is long. -/
def ReadsBack (j : Json) : Prop :=
  ∀ fuel rest, (compactChars j).length ≤ fuel → Stops rest →
    readValue fuel (compactChars j ++ rest) = some (j, rest)

theorem readItems_last {j : Json} (h : readValue fuel s = some (j, ']' :: rest)) :
    readItems (fuel + 1) s = some ([j], rest) := by
  rw [readItems, h]
  rfl

theorem readItems_more {j : Json} {s' : List Char} (h : readValue fuel s = some (j, ',' :: s'))
    (hs' : skipSpace s' = s') : readItems (fuel + 1) s =
      (readItems fuel s').map fun (items, r) => (j :: items, r) := by
  have hcomma : skipSpace (',' :: s') = ',' :: s' := rfl
  simp only [readItems, h, hcomma, hs']

theorem quoted_append (k : String) (rest : List Char) :
    quoted k ++ rest = '"' :: (k.toList.flatMap escapeChar ++ '"' :: rest) := by
  simp [quoted]

theorem readFields_last {k : String} {j : Json} (h : readValue fuel s = some (j, '}' :: rest))
    (hs : skipSpace s = s) :
    readFields (fuel + 1) (quoted k ++ ':' :: s) = some ([(k, j)], rest) := by
  have hcolon : skipSpace (':' :: s) = ':' :: s := rfl
  have hbrace : skipSpace ('}' :: rest) = '}' :: rest := rfl
  simp only [quoted_append, readFields, readString_quoted, hcolon, hs, h, hbrace]

theorem readFields_more {k : String} {j : Json} {s' : List Char}
    (h : readValue fuel s = some (j, ',' :: s')) (hs : skipSpace s = s)
    (hs' : skipSpace s' = s') : readFields (fuel + 1) (quoted k ++ ':' :: s) =
      (readFields fuel s').map fun (fields, r) => ((k, j) :: fields, r) := by
  have hcolon : skipSpace (':' :: s) = ':' :: s := rfl
  have hcomma : skipSpace (',' :: s') = ',' :: s' := rfl
  simp only [quoted_append, readFields, readString_quoted, hcolon, hs, h, hcomma, hs']

theorem readItems_compact {j : Json} {items : List Json} (hplain : ∀ k ∈ j :: items, k.Plain)
    (hread : ∀ k ∈ j :: items, k.ReadsBack) (hfuel : (compactItems (j :: items)).length < fuel) :
    readItems fuel (compactItems (j :: items) ++ ']' :: rest) = some (j :: items, rest) := by
  obtain ⟨fuel, rfl⟩ := Nat.exists_eq_add_one_of_ne_zero (Nat.ne_zero_of_lt hfuel)
  obtain ⟨hj, hothers⟩ := List.forall_mem_cons.1 hread
  induction items generalizing j fuel with
  | nil =>
    exact readItems_last (hj fuel _ (Nat.le_of_lt_succ hfuel) (stops_cons (by decide)))
  | cons k items ih =>
    obtain ⟨_, hplain⟩ := List.forall_mem_cons.1 hplain
    obtain ⟨hk, hrest⟩ := List.forall_mem_cons.1 hothers
    rw [compactItems_cons, List.length_append, List.length_cons] at hfuel
    obtain ⟨fuel, rfl⟩ := Nat.exists_eq_add_one_of_ne_zero (show fuel ≠ 0 by omega)
    have hitems := ih hplain hothers fuel (by omega) hk hrest
    have hopens := opens_compactItems (hplain k List.mem_cons_self) items
    have hvalue := hj (fuel + 1) (',' :: (compactItems (k :: items) ++ ']' :: rest)) (by omega)
      (stops_cons (by decide))
    rw [compactItems_cons, List.append_assoc, List.cons_append,
      readItems_more hvalue (skipSpace_opens hopens _), hitems]
    rfl

theorem readFields_compact {f : String × Json} {fields : List (String × Json)}
    (hplain : ∀ g ∈ f :: fields, g.2.Plain) (hread : ∀ g ∈ f :: fields, g.2.ReadsBack)
    (hfuel : (compactFields (f :: fields)).length < fuel) :
    readFields fuel (compactFields (f :: fields) ++ '}' :: rest) = some (f :: fields, rest) := by
  obtain ⟨fuel, rfl⟩ := Nat.exists_eq_add_one_of_ne_zero (Nat.ne_zero_of_lt hfuel)
  obtain ⟨hf, hothers⟩ := List.forall_mem_cons.1 hread
  induction fields generalizing f fuel with
  | nil =>
    have hopens := opens_compact (hplain f List.mem_cons_self)
    rw [compactFields, List.length_append, List.length_cons] at hfuel
    have hvalue := hf fuel ('}' :: rest) (by omega) (stops_cons (by decide))
    rw [compactFields, List.append_assoc, List.cons_append]
    exact readFields_last hvalue (skipSpace_opens hopens _)
  | cons g fields ih =>
    obtain ⟨hplainf, hplain⟩ := List.forall_mem_cons.1 hplain
    obtain ⟨hg, hrest⟩ := List.forall_mem_cons.1 hothers
    rw [compactFields_cons, List.length_append, List.length_cons, List.length_append,
      List.length_cons] at hfuel
    obtain ⟨fuel, rfl⟩ := Nat.exists_eq_add_one_of_ne_zero (show fuel ≠ 0 by omega)
    have hfields := ih hplain hothers fuel (by omega) hg hrest
    have hopens := opens_compact hplainf
    have hnext := opens_compactFields g fields
    have hvalue := hf (fuel + 1) (',' :: (compactFields (g :: fields) ++ '}' :: rest)) (by omega)
      (stops_cons (by decide))
    rw [compactFields_cons, List.append_assoc, List.cons_append, List.append_assoc,
      List.cons_append, readFields_more hvalue (skipSpace_opens hopens _)
        (skipSpace_opens hnext _), hfields]
    rfl

theorem readValue_items (h : Opens s) : readValue (fuel + 1) ('[' :: (s ++ rest)) =
    (readItems fuel (s ++ rest)).map fun (items, r) => (.arr items, r) := by
  have hspace := skipSpace_opens h rest
  obtain ⟨c, cs, rfl, _, hc⟩ := h
  rw [List.cons_append] at hspace ⊢
  simp only [readValue, hspace]
  split
  · rename_i heq
    exact absurd (List.cons.inj heq).1 hc
  · rfl

theorem readValue_fields (f : String × Json) (fields : List (String × Json)) :
    readValue (fuel + 1) ('{' :: (compactFields (f :: fields) ++ rest)) =
      (readFields fuel (compactFields (f :: fields) ++ rest)).map
        fun (fields, r) => (.obj fields, r) := by
  have hspace := skipSpace_opens (opens_compactFields f fields) rest
  simp only [readValue, hspace]
  cases fields with
  | nil => rfl
  | cons g fields => rfl

/-- The fuel is never out at the start of a value. -/
theorem readsBack_of_succ {j : Json} (hopens : Opens (compactChars j))
    (h : ∀ fuel rest, (compactChars j).length ≤ fuel + 1 → Stops rest →
      readValue (fuel + 1) (compactChars j ++ rest) = some (j, rest)) : j.ReadsBack := by
  intro fuel rest hfuel hrest
  obtain ⟨c, cs, htext, _⟩ := hopens
  cases fuel with
  | zero =>
    rw [htext] at hfuel
    cases hfuel
  | succ fuel => exact h fuel rest hfuel hrest

/-- A value is read back from its text, whatever follows that no number runs into. -/
theorem readValue_compact {j : Json} (h : j.Plain) : j.ReadsBack := by
  induction h with
  | null => exact readsBack_of_succ (opens_compact .null) fun _ _ _ _ => rfl
  | @bool b =>
    refine readsBack_of_succ (opens_compact .bool) fun _ _ _ _ => ?_
    cases b <;> rfl
  | @int n => exact readsBack_of_succ (opens_compact .int) fun _ _ _ hrest => readValue_int n hrest
  | @str s =>
    refine readsBack_of_succ (opens_compact .str) fun fuel rest _ _ => ?_
    rw [compactChars, quoted_append]
    simp only [readValue, readString_quoted]
  | @arr items hplain ih =>
    refine readsBack_of_succ (opens_compact (.arr hplain)) fun fuel rest hfuel _ => ?_
    cases items with
    | nil => rfl
    | cons j items =>
      rw [compactChars, List.length_cons, List.length_append, List.length_singleton] at hfuel
      have hopens := opens_compactItems (hplain j List.mem_cons_self) items
      rw [compactChars, List.cons_append, List.append_assoc, readValue_items hopens,
        List.singleton_append, readItems_compact hplain ih (by omega)]
      rfl
  | @obj fields hplain ih =>
    refine readsBack_of_succ (opens_compact (.obj hplain)) fun fuel rest hfuel _ => ?_
    cases fields with
    | nil => rfl
    | cons f fields =>
      rw [compactChars, List.length_cons, List.length_append, List.length_singleton] at hfuel
      rw [compactChars, List.cons_append, List.append_assoc, readValue_fields,
        List.singleton_append, readFields_compact hplain ih (by omega)]
      rfl

theorem parse?_compact {j : Json} (h : j.Plain) : parse? j.compact = some j := by
  have hopens := opens_compact h
  have hspace := skipSpace_opens hopens []
  have hread := readValue_compact h (2 * (compactChars j).length + 2) [] (by omega) stops_nil
  rw [List.append_nil] at hspace hread
  simp only [parse?, compact, String.toList_ofList, hspace, hread]
  rfl

end Json
end Conveyor
