import Conveyor.Yaml.Lexer

/-!
# Conveyor.Proofs.Yaml.Lines

Readers of tokens do not see which line they are on.

A cursor counts the lines before it, but only the lexer compares these counts. Every reader of a
token reads the same from a cursor further down, and stops as much further down.

* `Cursor.below` — the same place, some lines further down.
* `readPlain_below`, `readQuoted_below`, `readBlock_below`, `readTag_below`,
  `readDirective_below` — what readers do there.
-/

namespace Conveyor
namespace Yaml

/-- The same place in a text that has more lines before it. -/
def Cursor.below (c : Cursor) (lines : Nat) : Cursor := { c with line := c.line + lines }

namespace Cursor

variable (c : Cursor) (k : Nat)

@[simp] theorem rest_below : (c.below k).rest = c.rest := by
  cases c; rfl

@[simp] theorem column_below : (c.below k).column = c.column := by
  cases c; rfl

@[simp] theorem line_below : (c.below k).line = c.line + k := by
  cases c; rfl

@[simp] theorem peek_below : (c.below k).peek = c.peek := by
  cases c; rfl

@[simp] theorem peekAt_below (n : Nat) : (c.below k).peekAt n = c.peekAt n := by
  cases c; rfl

@[simp] theorem takeWhile_below (p : Char → Bool) : (c.below k).takeWhile p = c.takeWhile p := by
  cases c; rfl

@[simp] theorem skip_below (n : Nat) : (c.below k).skip n = (c.skip n).below k := by
  cases c; rfl

@[simp] theorem skipWhile_below (p : Char → Bool) :
    (c.below k).skipWhile p = (c.skipWhile p).below k := by
  cases c; rfl

@[simp] theorem skipLine_below : (c.below k).skipLine = c.skipLine.below k := by
  cases c; rfl

@[simp] theorem atMarker_below (mark : Char) : (c.below k).atMarker mark = c.atMarker mark := by
  cases c; rfl

@[simp] theorem atDocumentMarker_below : (c.below k).atDocumentMarker = c.atDocumentMarker := by
  cases c; rfl

@[simp] theorem newline?_below :
    (c.below k).newline? = c.newline?.map fun (b, d) => (b, d.below k) := by
  obtain ⟨rest, line, column⟩ := c
  simp only [newline?, below]
  split
  · simp [Nat.add_right_comm]
  · split <;> simp [Nat.add_right_comm]
  · rfl

end Cursor

variable (k : Nat)

/-! ## Scalars -/

theorem readGap_below (indent : Int) (fuel : Nat) (g : Gap) (c : Cursor) :
    readGap indent fuel g (c.below k) =
      (readGap indent fuel g c).map fun (g, d) => (g, d.below k) := by
  induction fuel generalizing g c with
  | zero => rfl
  | succ fuel ih =>
    simp only [readGap, Cursor.peek_below, Cursor.skip_below, Cursor.newline?_below,
      Cursor.column_below]
    split
    · exact ih _ _
    · by_cases htab : g.hasBreak = true ∧ (c.column : Int) < indent
      · rw [if_pos htab, if_pos htab]
        rfl
      · rw [if_neg htab, if_neg htab]
        exact ih _ _
    · cases c.newline? with
      | none => rfl
      | some r => exact ih _ _

theorem readPlainFrom_below (inFlow : Bool) (indent : Int) (fuel : Nat) (acc : List Char) (g : Gap)
    (c : Cursor) :
    readPlainFrom inFlow indent fuel acc g (c.below k) =
      (readPlainFrom inFlow indent fuel acc g c).map fun (s, b, d) => (s, b, d.below k) := by
  induction fuel generalizing acc g c with
  | zero => rfl
  | succ fuel ih =>
    simp only [readPlainFrom, Cursor.atDocumentMarker_below, Cursor.peek_below, Cursor.rest_below,
      Cursor.skip_below, readGap_below]
    by_cases hstop : (c.atDocumentMarker || c.peek = some '#') = true
    · rw [if_pos hstop, if_pos hstop]
      rfl
    · rw [if_neg hstop, if_neg hstop]
      split
      · rfl
      · rfl
      · rename_i word _ _
        by_cases hend : ((c.skip word.length).peek.all fun d => !isSpacing d) = true
        · rw [if_pos hend, if_pos hend]
          rfl
        · rw [if_neg hend, if_neg hend]
          cases readGap indent _ Gap.none (c.skip word.length) with
          | none => rfl
          | some r =>
            obtain ⟨g, c⟩ := r
            simp only [Option.map_some, Cursor.column_below]
            by_cases hout : (!inFlow && (c.column : Int) < indent) = true
            · rw [if_pos hout, if_pos hout]
              rfl
            · rw [if_neg hout, if_neg hout]
              exact ih _ _ _

theorem readPlain_below (inFlow : Bool) (indent : Int) (c : Cursor) :
    readPlain inFlow indent (c.below k) =
      (readPlain inFlow indent c).map fun (s, b, d) => (s, b, d.below k) :=
  readPlainFrom_below k inFlow _ _ _ _ c

theorem readStretch_below (single : Bool) (fuel : Nat) (acc : List Char) (c : Cursor) :
    readStretch single fuel acc (c.below k) =
      (readStretch single fuel acc c).map fun (s, b, d) => (s, b, d.below k) := by
  induction fuel generalizing acc c with
  | zero => rfl
  | succ fuel ih =>
    simp only [readStretch, Cursor.rest_below, Cursor.skip_below, Cursor.newline?_below]
    cases c.rest with
    | nil => rfl
    | cons d ds =>
      simp only [apply_ite (Option.map _), ih, Option.map_some]
      cases (c.skip 1).newline? with
      | some r => rfl
      | none =>
        cases readEscape ds with
        | none => rfl
        | some r => simp only [Option.map_none]

theorem readQuotedFrom_below (single : Bool) (fuel : Nat) (acc : List Char) (c : Cursor) :
    readQuotedFrom single fuel acc (c.below k) =
      (readQuotedFrom single fuel acc c).map fun (s, d) => (s, d.below k) := by
  induction fuel generalizing acc c with
  | zero => rfl
  | succ fuel ih =>
    simp only [readQuotedFrom, Cursor.atDocumentMarker_below, Cursor.rest_below,
      readStretch_below, apply_ite (Option.map _), Option.map_none]
    cases readStretch single (c.rest.length + 1) acc c with
    | none => rfl
    | some r =>
      obtain ⟨acc, escaped, c⟩ := r
      simp only [Option.map_some, Cursor.peek_below, Cursor.skip_below, Cursor.rest_below,
        readGap_below, apply_ite (Option.map _)]
      cases readGap 0 _ (if escaped = true then Gap.breaks [] [] else Gap.none) c with
      | none => rfl
      | some r => simp only [Option.map_some, Cursor.rest_below, ih, apply_ite (Option.map _),
          Option.map_none]

theorem readQuoted_below (single : Bool) (c : Cursor) :
    readQuoted single (c.below k) = (readQuoted single c).map fun (s, d) => (s, d.below k) :=
  readQuotedFrom_below k single _ _ (c.skip 1)

theorem readChomping_below (c : Cursor) :
    readChomping (c.below k) = (readChomping c).map fun (m, d) => (m, d.below k) := by
  simp only [readChomping, Cursor.peek_below, Cursor.skip_below]
  split <;> rfl

theorem readIncrement_below (c : Cursor) :
    readIncrement (c.below k) = (readIncrement c).map fun (n, d) => (n, d.below k) := by
  simp only [readIncrement, Cursor.peek_below, Cursor.skip_below]
  cases c.peek with
  | none => rfl
  | some d => simp only [apply_ite (Option.map _), Option.map_none, Option.map_some]

theorem readHeader_below (c : Cursor) :
    readHeader (c.below k) = (readHeader c).map fun (m, n, d) => (m, n, d.below k) := by
  simp only [readHeader, readChomping_below, readIncrement_below]
  cases readChomping c with
  | some r =>
    obtain ⟨m, d⟩ := r
    simp only [Option.map_some, readIncrement_below]
    cases readIncrement d <;> rfl
  | none =>
    cases readIncrement c with
    | none => rfl
    | some r =>
      obtain ⟨n, d⟩ := r
      cases n with
      | none => rfl
      | some n =>
        simp only [Option.map_some, Option.map_none, readChomping_below]
        cases readChomping d <;> rfl

theorem readEmptyLines_below (indent : Option Nat) (fuel : Nat) (breaks : List Char) (widest : Nat)
    (c : Cursor) :
    readEmptyLines indent fuel breaks widest (c.below k) =
      (readEmptyLines indent fuel breaks widest c).map fun (b, w, d) => (b, w, d.below k) := by
  induction fuel generalizing breaks widest c with
  | zero => rfl
  | succ fuel ih =>
    simp only [readEmptyLines, Cursor.takeWhile_below, Cursor.skip_below, Cursor.column_below,
      Cursor.peek_below, Cursor.newline?_below, apply_ite (Option.map _), Option.map_none]
    cases (c.skip _).newline? with
    | none => rfl
    | some r => simp only [Option.map_some, ih]

theorem readLines_below (literal : Bool) (indent fuel : Nat) (acc first breaks : List Char)
    (wasBlank : Bool) (c : Cursor) :
    readLines literal indent fuel acc first breaks wasBlank (c.below k) =
      (readLines literal indent fuel acc first breaks wasBlank c).map
        fun (a, f, b, d) => (a, f, b, d.below k) := by
  induction fuel generalizing acc first breaks wasBlank c with
  | zero => rfl
  | succ fuel ih =>
    simp only [readLines, Cursor.column_below, Cursor.rest_below, Cursor.peek_below,
      Cursor.takeWhile_below, Cursor.skip_below, Cursor.newline?_below,
      apply_ite (Option.map _), Option.map_some]
    cases (c.skip _).newline? with
    | none =>
      simp only [Option.map_none, readEmptyLines_below, Cursor.rest_below]
      cases readEmptyLines (some indent) _ [] 0 (c.skip _) with
      | none => rfl
      | some r => simp only [Option.map_some, ih]
    | some r =>
      obtain ⟨b, d⟩ := r
      simp only [Option.map_some, readEmptyLines_below, Cursor.rest_below]
      cases readEmptyLines (some indent) _ [] 0 d with
      | none => rfl
      | some r => simp only [Option.map_some, ih]

theorem readBlock_below (literal : Bool) (parent : Int) (c : Cursor) :
    readBlock literal parent (c.below k) =
      (readBlock literal parent c).map fun (s, d) => (s, d.below k) := by
  simp only [readBlock, Cursor.skip_below, readHeader_below, Option.bind_eq_bind]
  cases readHeader (c.skip 1) with
  | none => rfl
  | some r =>
    obtain ⟨chomping, increment, c⟩ := r
    simp only [Option.map_some, Option.bind_some, Cursor.skipWhile_below,
      Cursor.peek_below, Cursor.skipLine_below]
    rw [← apply_ite (Cursor.below · k)]
    generalize (if (c.skipWhile isBlank).peek = some '#' then (c.skipWhile isBlank).skipLine
      else c.skipWhile isBlank) = c
    simp only [Cursor.newline?_below, Cursor.rest_below]
    cases c.newline? with
    | none =>
      simp only [Option.map_none, readEmptyLines_below, readLines_below, Option.bind_map,
        Option.map_bind, Function.comp_def, Cursor.rest_below, apply_ite (Option.map _),
        Option.pure_def, Option.map_some, Option.bind_none]
    | some r =>
      simp only [Option.map_some, readEmptyLines_below, readLines_below, Option.bind_map,
        Option.map_bind, Function.comp_def, Cursor.rest_below, Option.pure_def]

/-! ## Names, tags, directives -/

theorem readAnchorName_below (c : Cursor) :
    readAnchorName (c.below k) = (readAnchorName c).map fun (s, d) => (s, d.below k) := by
  simp only [readAnchorName, Cursor.skip_below, Cursor.takeWhile_below, Cursor.peek_below,
    apply_ite (Option.map _), Option.map_some, Option.map_none]

theorem readAddress_below (verbatim : Bool) (fuel : Nat) (acc : List Char) (c : Cursor) :
    readAddress verbatim fuel acc (c.below k) =
      (readAddress verbatim fuel acc c).map fun (s, d) => (s, d.below k) := by
  induction fuel generalizing acc c with
  | zero => rfl
  | succ fuel ih =>
    simp only [readAddress, Cursor.peek_below, Cursor.rest_below, Cursor.skip_below]
    cases c.peek with
    | none => rfl
    | some d =>
      simp only [apply_ite (Option.map _), ih, Option.map_some]
      cases readEscapedChar c.rest with
      | none => rfl
      | some r => rfl

theorem readFullAddress_below (verbatim : Bool) (head : List Char) (c : Cursor) :
    readFullAddress verbatim head (c.below k) =
      (readFullAddress verbatim head c).map fun (s, d) => (s, d.below k) := by
  simp only [readFullAddress, Cursor.rest_below, readAddress_below]
  cases readAddress verbatim (c.rest.length + 1) [] c with
  | none => rfl
  | some r => simp only [Option.map_some, apply_ite (Option.map _), Option.map_none]

theorem readHandle_below (c : Cursor) :
    readHandle (c.below k) = (readHandle c).map fun (s, d) => (s, d.below k) := by
  simp only [readHandle, Cursor.peek_below, Cursor.skip_below, Cursor.takeWhile_below,
    apply_ite (Option.map _), Option.map_some, Option.map_none]

theorem readTag_below (inFlow : Bool) (c : Cursor) :
    readTag inFlow (c.below k) = (readTag inFlow c).map fun (t, d) => (t, d.below k) := by
  simp only [readTag, Cursor.peekAt_below, Cursor.skip_below, readFullAddress_below,
    readHandle_below, Option.bind_eq_bind, Option.bind_map, Option.map_bind, Function.comp_def,
    Cursor.peek_below, apply_ite (Option.map _), Option.bind_some, Option.bind_none,
    Option.map_some, Option.map_none]

theorem readVersionNumber_below (c : Cursor) :
    readVersionNumber (c.below k) = (readVersionNumber c).map fun (n, d) => (n, d.below k) := by
  simp only [readVersionNumber, Cursor.takeWhile_below, Cursor.skip_below,
    apply_ite (Option.map _), Option.map_some, Option.map_none]

theorem readVersion_below (c : Cursor) :
    readVersion (c.below k) = (readVersion c).map fun (t, d) => (t, d.below k) := by
  simp only [readVersion, Cursor.skipWhile_below, readVersionNumber_below, Option.bind_eq_bind,
    Option.bind_map, Option.map_bind, Function.comp_def, Cursor.peek_below, Cursor.skip_below,
    apply_ite (Option.map _), Option.map_some, Option.map_none]

theorem readTagDeclaration_below (c : Cursor) :
    readTagDeclaration (c.below k) =
      (readTagDeclaration c).map fun (t, d) => (t, d.below k) := by
  simp only [readTagDeclaration, Cursor.skipWhile_below, readHandle_below, readFullAddress_below,
    Option.bind_eq_bind, Option.bind_map, Option.map_bind, Function.comp_def, Cursor.peek_below,
    apply_ite (Option.map _), Option.map_some, Option.map_none]

/-- A directive with what may follow it on its line. -/
def closeDirective (t : Token) (c : Cursor) : Option (Token × Cursor) :=
  let c := c.skipWhile isBlank
  let c := if c.peek = some '#' then c.skipLine else c
  match c.newline? with
  | some (_, c) => some (t, c)
  | none => if c.rest.isEmpty then some (t, c) else none

theorem readDirective_eq (c : Cursor) :
    readDirective c =
      let name := (c.skip 1).takeWhile isNameChar
      let c := (c.skip 1).skip name.length
      if name.isEmpty || !isSpacingOrEnd c.peek then none
      else if String.ofList name = "YAML" then
        (readVersion c).bind fun (t, d) => closeDirective t d
      else if String.ofList name = "TAG" then
        (readTagDeclaration c).bind fun (t, d) => closeDirective t d
      else none := by
  simp only [readDirective]
  split
  · rfl
  · split
    · rename_i hname
      rw [if_pos hname]
      rfl
    · rename_i hname
      rw [if_neg (by rw [hname]; decide), if_pos hname]
      rfl
    · rename_i hyaml htag
      rw [if_neg hyaml, if_neg htag]
      rfl

theorem closeDirective_below (t : Token) (c : Cursor) :
    closeDirective t (c.below k) = (closeDirective t c).map fun (t, d) => (t, d.below k) := by
  simp only [closeDirective, Cursor.skipWhile_below, Cursor.peek_below, Cursor.skipLine_below]
  rw [← apply_ite (Cursor.below · k)]
  generalize (if (c.skipWhile isBlank).peek = some '#' then (c.skipWhile isBlank).skipLine
    else c.skipWhile isBlank) = c
  simp only [Cursor.newline?_below, Cursor.rest_below]
  cases c.newline? with
  | none => simp only [Option.map_none, apply_ite (Option.map _), Option.map_some]
  | some r => rfl

theorem readDirective_below (c : Cursor) :
    readDirective (c.below k) = (readDirective c).map fun (t, d) => (t, d.below k) := by
  simp only [readDirective_eq, Cursor.skip_below, Cursor.takeWhile_below, Cursor.peek_below,
    readVersion_below, readTagDeclaration_below, closeDirective_below, Option.bind_map,
    Option.map_bind, Function.comp_def, apply_ite (Option.map _), Option.map_none]

end Yaml
end Conveyor
