import Conveyor.Proofs.Yaml.Lines

/-!
# Conveyor.Proofs.Yaml.History

A lexer reads on the same, whatever it has read before.

Of what it has read, a lexer keeps the slots, the keys among the marks, and the counts of lines
and of marks. It looks at the counts only to compare them with later ones, and it only adds to the
rest. So a lexer that goes on after some history does what it does without, and the tokens of both
stand behind one another.

* `History`      — what a lexer has read before.
* `Lexer.after`  — a lexer that goes on after a history.
* `readAt_after` — one token is read the same.
* `run_after`    — so are all, below the first line.
* `reads_on`     — the tokens of a run are those of the history and then others, which depend on
                   the rest of the text only.
-/

namespace Conveyor
namespace Yaml

structure History where
  lines : Nat
  /-- How many marks there were. -/
  ids : Nat
  slots : List Slot
  keys : List (Nat × Bool)

variable (h : History)

def OpenMark.after (m : OpenMark) : OpenMark :=
  { m with id := m.id + h.ids, line := m.line + h.lines }

def Slot.after : Slot → Slot
  | .token t => .token t
  | .mark id => .mark (id + h.ids)

namespace Lexer

/-- A lexer that goes on after a history. -/
def after (l : Lexer) : Lexer :=
  { l with
    cursor := l.cursor.below h.lines
    marks := l.marks.map (Option.map (OpenMark.after h))
    slots := l.slots.map (Slot.after h) ++ h.slots
    keys := l.keys.map (fun (id, starts) => (id + h.ids, starts)) ++ h.keys
    nextId := l.nextId + h.ids }

variable (l : Lexer)

/-! ## Fields -/

@[simp] theorem cursor_after : (l.after h).cursor = l.cursor.below h.lines := by
  cases l; rfl

@[simp] theorem indent_after : (l.after h).indent = l.indent := by
  cases l; rfl

@[simp] theorem indents_after : (l.after h).indents = l.indents := by
  cases l; rfl

@[simp] theorem keyAllowed_after : (l.after h).keyAllowed = l.keyAllowed := by
  cases l; rfl

@[simp] theorem inFlow_after : (l.after h).inFlow = l.inFlow := by
  simp [inFlow, after]

/-! ## Marks -/

theorem dropMark_after : (l.after h).dropMark = l.dropMark.map (after h) := by
  obtain ⟨cursor, indent, indents, marks, keyAllowed, slots, keys, nextId⟩ := l
  cases marks with
  | nil => rfl
  | cons m marks =>
    cases m with
    | none => rfl
    | some m =>
      obtain ⟨id, line, column, required⟩ := m
      cases required <;> rfl

theorem mark_after : (l.after h).mark = l.mark.map (after h) := by
  rw [mark, mark, keyAllowed_after, dropMark_after]
  cases l.keyAllowed with
  | false => rfl
  | true =>
    rw [if_pos rfl, if_pos rfl]
    cases l.dropMark with
    | none => rfl
    | some l =>
      simp only [Option.map_some, inFlow_after]
      simp [after, OpenMark.after, Slot.after, Nat.add_right_comm]

theorem isStale_after (c : Cursor) (m : OpenMark) :
    isStale (c.below h.lines) (m.after h) = isStale c m := by
  simp [isStale, OpenMark.after]

theorem dropStale_after (c : Cursor) (marks : List (Option OpenMark)) :
    dropStale (c.below h.lines) (marks.map (Option.map (OpenMark.after h))) =
      (dropStale c marks).map (List.map (Option.map (OpenMark.after h))) := by
  induction marks with
  | nil => rfl
  | cons m marks ih =>
    cases m with
    | none =>
      simp only [List.map_cons, Option.map_none, dropStale, ih, Option.map_map]
      rfl
    | some m =>
      have hrequired : (m.after h).required = m.required := rfl
      simp only [List.map_cons, Option.map_some, dropStale, ih, isStale_after, hrequired]
      cases isStale c m <;> cases m.required <;> simp [Option.map_map, Function.comp_def]

/-! ## Blocks -/

theorem roll_after (column : Nat) :
    (l.after h).roll column = ((l.roll column).1.after h, (l.roll column).2) := by
  rw [roll, roll, inFlow_after, indent_after]
  split <;> rfl

theorem rollWith_after (t : Token) : (l.after h).rollWith t = (l.rollWith t).after h := by
  rw [rollWith, rollWith, cursor_after, Cursor.column_below, roll_after]
  cases l.roll l.cursor.column with
  | mk l opens => cases opens <;> rfl

theorem unrollFrom_after (column : Int) (indents : List Int) :
    unrollFrom column indents (l.after h) = (unrollFrom column indents l).after h := by
  induction indents generalizing l with
  | nil => rfl
  | cons i rest ih =>
    rw [unrollFrom, unrollFrom, indent_after]
    split
    · exact ih { l.push .blockEnd with indent := i, indents := rest }
    · rfl

theorem unroll_after (column : Int) : (l.after h).unroll column = (l.unroll column).after h := by
  rw [unroll, unroll, inFlow_after, indents_after, unrollFrom_after]
  split <;> rfl

/-! ## Tokens -/

theorem readMarker_after (t : Token) :
    (l.after h).readMarker t = (l.readMarker t).map (after h) := by
  rw [readMarker, readMarker, unroll_after, dropMark_after]
  cases (l.unroll (-1)).dropMark <;> rfl

theorem readDirectiveToken_after :
    (l.after h).readDirectiveToken = l.readDirectiveToken.map (after h) := by
  rw [readDirectiveToken, readDirectiveToken, unroll_after, dropMark_after]
  cases (l.unroll (-1)).dropMark with
  | none => rfl
  | some l =>
    simp only [Option.map_some, cursor_after, readDirective_below, Option.map_map]
    rfl

theorem openFlow_after (t : Token) : (l.after h).openFlow t = (l.openFlow t).map (after h) := by
  rw [openFlow, openFlow, mark_after, Option.map_map, Option.map_map]
  rfl

theorem closeFlow_after (t : Token) : (l.after h).closeFlow t = (l.closeFlow t).map (after h) := by
  rw [closeFlow, closeFlow, dropMark_after, Option.map_map, Option.map_map]
  refine congrFun (congrArg Option.map (funext fun l => ?_)) _
  rw [Function.comp_apply, Function.comp_apply, inFlow_after]
  cases l.inFlow with
  | true => simp [after, pushSkip, push, Slot.after]
  | false => rfl

theorem readFlowEntry_after : (l.after h).readFlowEntry = l.readFlowEntry.map (after h) := by
  rw [readFlowEntry, readFlowEntry, dropMark_after, Option.map_map, Option.map_map]
  rfl

theorem readBlockEntry_after : (l.after h).readBlockEntry = l.readBlockEntry.map (after h) := by
  rw [readBlockEntry, readBlockEntry, inFlow_after, keyAllowed_after, rollWith_after,
    dropMark_after, apply_ite (Option.map _), Option.map_map, Option.map_map]
  rfl

theorem readKey_after : (l.after h).readKey = l.readKey.map (after h) := by
  rw [readKey, readKey, inFlow_after, keyAllowed_after, rollWith_after,
    dropMark_after, apply_ite (Option.map _), Option.map_map, Option.map_map]
  congr 1
  refine congrFun (congrArg Option.map (funext fun l => ?_)) _
  rw [Function.comp_apply, Function.comp_apply, inFlow_after]
  rfl

theorem readValue_of_mark {l : Lexer} {m : OpenMark} {rest : List (Option OpenMark)}
    (hm : l.marks = some m :: rest) :
    l.readValue =
      let rolled := { l with marks := none :: rest }.roll m.column
      some ({ rolled.1 with
        keys := (m.id, rolled.2) :: rolled.1.keys, keyAllowed := false }.pushSkip .value 1) := by
  rw [readValue, hm]

theorem readValue_of_none {l : Lexer} (hm : ∀ m rest, l.marks ≠ some m :: rest) :
    l.readValue =
      if !l.inFlow && !l.keyAllowed then none
      else some ({ l.rollWith .blockMappingStart with keyAllowed := !l.inFlow }.pushSkip
        .value 1) := by
  rw [readValue]
  split
  · rename_i m rest hmarks
    exact absurd hmarks (hm m rest)
  · rfl

theorem readValue_after : (l.after h).readValue = l.readValue.map (after h) := by
  have hmarks : (l.after h).marks = l.marks.map (Option.map (OpenMark.after h)) := rfl
  by_cases hm : ∃ m rest, l.marks = some m :: rest
  · obtain ⟨m, rest, hm⟩ := hm
    rw [hm] at hmarks
    have hrest : { l.after h with
          marks := none :: rest.map (Option.map (OpenMark.after h)) } =
        ({ l with marks := none :: rest } : Lexer).after h := rfl
    rw [readValue_of_mark hmarks, readValue_of_mark hm, hrest]
    simp only [roll_after]
    rfl
  · have hnone : ∀ m rest, l.marks ≠ some m :: rest := fun m rest heq => hm ⟨m, rest, heq⟩
    have hnone' : ∀ m rest, (l.after h).marks ≠ some m :: rest := by
      intro m rest heq
      rw [hmarks] at heq
      obtain ⟨m', rest', hl, hm', -⟩ := List.map_eq_cons_iff.1 heq
      obtain ⟨m', rfl, -⟩ := Option.map_eq_some_iff.1 hm'
      exact hnone _ _ hl
    rw [readValue_of_none hnone, readValue_of_none hnone', inFlow_after, keyAllowed_after,
      rollWith_after, apply_ite (Option.map _)]
    rfl

theorem readAnchorToken_after (make : String → Token) :
    (l.after h).readAnchorToken make = (l.readAnchorToken make).map (after h) := by
  rw [readAnchorToken, readAnchorToken, mark_after]
  cases l.mark with
  | none => rfl
  | some l =>
    simp only [Option.map_some, cursor_after, readAnchorName_below, Option.map_map]
    rfl

theorem readTagToken_after : (l.after h).readTagToken = l.readTagToken.map (after h) := by
  rw [readTagToken, readTagToken, mark_after]
  cases l.mark with
  | none => rfl
  | some l =>
    simp only [Option.map_some, inFlow_after, cursor_after, readTag_below, Option.map_map]
    rfl

theorem readBlockScalar_after (literal : Bool) :
    (l.after h).readBlockScalar literal = (l.readBlockScalar literal).map (after h) := by
  rw [readBlockScalar, readBlockScalar, dropMark_after]
  cases l.dropMark with
  | none => rfl
  | some l =>
    simp only [Option.map_some, indent_after, cursor_after, readBlock_below, Option.map_map]
    rfl

theorem readQuotedScalar_after (single : Bool) :
    (l.after h).readQuotedScalar single = (l.readQuotedScalar single).map (after h) := by
  rw [readQuotedScalar, readQuotedScalar, mark_after]
  cases l.mark with
  | none => rfl
  | some l =>
    simp only [Option.map_some, cursor_after, readQuoted_below, Option.map_map]
    rfl

theorem readPlainScalar_after : (l.after h).readPlainScalar = l.readPlainScalar.map (after h) := by
  rw [readPlainScalar, readPlainScalar, mark_after]
  cases l.mark with
  | none => rfl
  | some l =>
    simp only [Option.map_some, inFlow_after, indent_after, cursor_after, readPlain_below,
      Option.map_map]
    rfl

theorem startsPlain_after (c : Char) : (l.after h).startsPlain c = l.startsPlain c := by
  simp only [startsPlain, cursor_after, Cursor.peekAt_below, inFlow_after]

/-- Whatever was read before, the next token is read the same. -/
theorem readAt_after (c : Char) : (l.after h).readAt c = (l.readAt c).map (after h) := by
  simp only [readAt, cursor_after, Cursor.peekAt_below, Cursor.column_below, Cursor.atMarker_below,
    inFlow_after, readDirectiveToken_after, readMarker_after, openFlow_after, closeFlow_after,
    readFlowEntry_after, readBlockEntry_after, readKey_after, readValue_after,
    readAnchorToken_after, readTagToken_after, readBlockScalar_after, readQuotedScalar_after,
    readPlainScalar_after, startsPlain_after, apply_ite (Option.map _), Option.map_none]

theorem finish_after : (l.after h).finish = l.finish.map (after h) := by
  rw [finish, finish, unroll_after, dropMark_after]

/-! ## Runs -/

theorem skipSpacing_after (fuel : Nat) (l : Lexer) :
    ∃ l' : Lexer, ∀ h : History, 0 < h.lines → skipSpacing fuel (l.after h) = l'.after h := by
  induction fuel generalizing l with
  | zero => exact ⟨l, fun h _ => rfl⟩
  | succ fuel ih =>
    let blanks := l.cursor.skipWhile fun d => d = ' ' || ((l.inFlow || !l.keyAllowed) && d = '\t')
    let c := if blanks.peek = some '#' then blanks.skipLine else blanks
    have hstep : ∀ h : History, 0 < h.lines → skipSpacing (fuel + 1) (l.after h) =
        c.newline?.elim ({ l with cursor := c }.after h) fun r => skipSpacing fuel
          ({ l with cursor := r.2, keyAllowed := l.keyAllowed || !l.inFlow }.after h) := by
      intro h hlines
      have hbelow : ¬ ((l.cursor.below h.lines).line = 0 ∧ (l.cursor.below h.lines).column = 0 ∧
          (l.cursor.below h.lines).peek = some byteOrderMark) := by
        rw [Cursor.line_below]
        omega
      have hcursor : (if (blanks.below h.lines).peek = some '#' then (blanks.below h.lines).skipLine
          else blanks.below h.lines) = c.below h.lines := by
        rw [Cursor.peek_below, Cursor.skipLine_below, ← apply_ite (Cursor.below · h.lines)]
      simp only [skipSpacing, cursor_after, if_neg hbelow, inFlow_after, keyAllowed_after,
        Cursor.skipWhile_below]
      rw [hcursor, Cursor.newline?_below]
      cases c.newline? <;> rfl
    cases hnext : c.newline? with
    | none =>
      refine ⟨{ l with cursor := c }, fun h hlines => ?_⟩
      rw [hstep h hlines, hnext, Option.elim_none]
    | some r =>
      obtain ⟨l', hl'⟩ := ih { l with cursor := r.2, keyAllowed := l.keyAllowed || !l.inFlow }
      refine ⟨l', fun h hlines => ?_⟩
      rw [hstep h hlines, hnext, Option.elim_some]
      exact hl' h hlines

/-- What comes before the next token: marks are given up, and blocks closed that stand further
right. -/
def align (l : Lexer) : Option Lexer :=
  (dropStale l.cursor l.marks).map fun marks => { l with marks }.unroll l.cursor.column

theorem align_after (l : Lexer) : (l.after h).align = l.align.map (after h) := by
  have hmarks : (l.after h).marks = l.marks.map (Option.map (OpenMark.after h)) := rfl
  rw [align, align, hmarks, cursor_after, dropStale_after, Option.map_map, Option.map_map]
  refine congrFun (congrArg Option.map (funext fun marks => ?_)) _
  exact unroll_after h { l with marks } _

theorem run_succ (fuel : Nat) (l : Lexer) :
    run (fuel + 1) l =
      (skipSpacing (l.cursor.rest.length + 1) l).align.bind fun l =>
        match l.cursor.peek with
        | none => l.finish
        | some c => (l.readAt c).bind (run fuel) := by
  rw [run, align]
  generalize skipSpacing (l.cursor.rest.length + 1) l = spaced
  cases dropStale spaced.cursor spaced.marks with
  | none => rfl
  | some marks =>
    rw [Option.map_some, Option.bind_some]
    dsimp only
    generalize ({ spaced with marks } : Lexer).unroll spaced.cursor.column = aligned
    cases aligned.cursor.peek with
    | none => rfl
    | some c =>
      dsimp only
      cases aligned.readAt c <;> rfl

/-- A round of a run that reads a token, from one place to the next. -/
theorem run_read {l aligned next : Lexer} {c : Char} (fuel : Nat)
    (halign : (skipSpacing (l.cursor.rest.length + 1) l).align = some aligned)
    (hc : aligned.cursor.peek = some c) (hread : aligned.readAt c = some next) :
    run (fuel + 1) l = run fuel next := by
  rw [run_succ, halign, Option.bind_some, hc]
  change (aligned.readAt c).bind (run fuel) = _
  rw [hread, Option.bind_some]

/-- Below the first line, a run does the same after every history. -/
theorem run_after (fuel : Nat) (l : Lexer) :
    ∃ r : Option Lexer, ∀ h : History, 0 < h.lines → run fuel (l.after h) = r.map (after h) := by
  induction fuel generalizing l with
  | zero => exact ⟨none, fun h _ => rfl⟩
  | succ fuel ih =>
    obtain ⟨spaced, hspaced⟩ := skipSpacing_after (l.cursor.rest.length + 1) l
    have hstep : ∀ h : History, 0 < h.lines → run (fuel + 1) (l.after h) =
        spaced.align.bind fun l =>
          match l.cursor.peek with
          | none => l.finish.map (after h)
          | some c => (l.readAt c).bind fun l => run fuel (l.after h) := by
      intro h hlines
      rw [run_succ, cursor_after, Cursor.rest_below, hspaced h hlines, align_after,
        Option.bind_map]
      simp only [Function.comp_def, cursor_after, Cursor.peek_below, finish_after, readAt_after,
        Option.bind_map]
    cases haligned : spaced.align with
    | none =>
      refine ⟨none, fun h hlines => ?_⟩
      rw [hstep h hlines, haligned]
      rfl
    | some aligned =>
      simp only [haligned, Option.bind_some] at hstep
      cases hpeek : aligned.cursor.peek with
      | none =>
        refine ⟨aligned.finish, fun h hlines => ?_⟩
        rw [hstep h hlines, hpeek]
      | some c =>
        simp only [hpeek] at hstep
        cases hread : aligned.readAt c with
        | none =>
          refine ⟨none, fun h hlines => ?_⟩
          rw [hstep h hlines, hread]
          rfl
        | some next =>
          obtain ⟨r, hr⟩ := ih next
          refine ⟨r, fun h hlines => ?_⟩
          rw [hstep h hlines, hread, Option.bind_some, hr h hlines]

theorem run_mono {fuel : Nat} {l r : Lexer} (h : run fuel l = some r) (more : Nat) :
    run (fuel + more) l = some r := by
  induction fuel generalizing l with
  | zero => cases h
  | succ fuel ih =>
    rw [run_succ] at h
    rw [Nat.succ_add, run_succ]
    obtain ⟨aligned, haligned, h⟩ := Option.bind_eq_some_iff.1 h
    rw [haligned, Option.bind_some]
    cases hpeek : aligned.cursor.peek with
    | none =>
      rw [hpeek] at h
      exact h
    | some c =>
      rw [hpeek] at h
      obtain ⟨next, hnext, h⟩ := Option.bind_eq_some_iff.1 h
      dsimp only
      rw [hnext]
      exact ih h

/-! ## Tokens of a run -/

def tokens (l : Lexer) : List Token := resolve l.keys [] l.slots

theorem resolve_append (keys : List (Nat × Bool)) (acc : List Token) (later earlier : List Slot) :
    resolve keys acc (later ++ earlier) = resolve keys (resolve keys acc later) earlier := by
  induction later generalizing acc with
  | nil => rfl
  | cons s later ih =>
    cases s with
    | token t => exact ih _
    | mark id =>
      simp only [List.cons_append, resolve]
      split <;> exact ih _

end Lexer

/-- The numbers of a history are below those that come after it. -/
structure History.Closed : Prop where
  keys : ∀ key ∈ h.keys, key.1 < h.ids
  slots : ∀ id, Slot.mark id ∈ h.slots → id < h.ids

/-- The keys of a lexer after a history. -/
def History.keysWith (keys : List (Nat × Bool)) : List (Nat × Bool) :=
  keys.map (fun (id, starts) => (id + h.ids, starts)) ++ h.keys

namespace History

variable {h}

theorem lookup_later (hclosed : h.Closed) (keys : List (Nat × Bool)) (id : Nat) :
    (h.keysWith keys).lookup (id + h.ids) = keys.lookup id := by
  induction keys with
  | nil =>
    refine List.lookup_eq_none_iff.2 fun key hkey => ?_
    have hlt := hclosed.keys key hkey
    rw [bne_iff_ne]
    omega
  | cons key keys ih =>
    have hcons : h.keysWith (key :: keys) = (key.1 + h.ids, key.2) :: h.keysWith keys := rfl
    have hsame : (id + h.ids == key.1 + h.ids) = (id == key.1) := by
      rw [Bool.eq_iff_iff, beq_iff_eq, beq_iff_eq]
      omega
    rw [hcons, List.lookup_cons, hsame, ih, List.lookup_cons]

theorem lookup_earlier (keys : List (Nat × Bool)) {id : Nat} (hid : id < h.ids) :
    (h.keysWith keys).lookup id = h.keys.lookup id := by
  induction keys with
  | nil => rfl
  | cons key keys ih =>
    have hcons : h.keysWith (key :: keys) = (key.1 + h.ids, key.2) :: h.keysWith keys := rfl
    have hne : (id == key.1 + h.ids) = false := beq_eq_false_iff_ne.2 (by omega)
    rw [hcons, List.lookup_cons, hne, ih]

open Lexer

theorem resolve_later (hclosed : h.Closed) (keys : List (Nat × Bool)) (acc : List Token)
    (slots : List Slot) :
    resolve (h.keysWith keys) acc (slots.map (Slot.after h)) = resolve keys acc slots := by
  induction slots generalizing acc with
  | nil => rfl
  | cons s slots ih =>
    cases s with
    | token t => exact ih _
    | mark id =>
      simp only [List.map_cons, Slot.after, resolve, lookup_later hclosed]
      split <;> exact ih _

theorem resolve_earlier (keys : List (Nat × Bool)) (acc : List Token) {slots : List Slot}
    (hslots : ∀ id, Slot.mark id ∈ slots → id < h.ids) :
    resolve (h.keysWith keys) acc slots = resolve h.keys acc slots := by
  induction slots generalizing acc with
  | nil => rfl
  | cons s slots ih =>
    have hrest : ∀ id, Slot.mark id ∈ slots → id < h.ids :=
      fun id hid => hslots id (List.mem_cons_of_mem _ hid)
    cases s with
    | token t => exact ih _ hrest
    | mark id =>
      simp only [resolve, lookup_earlier keys (hslots id List.mem_cons_self)]
      split <;> exact ih _ hrest

theorem tokens_after (hclosed : h.Closed) (l : Lexer) :
    (l.after h).tokens = resolve h.keys l.tokens h.slots := by
  have htokens : (l.after h).tokens =
      resolve (h.keysWith l.keys) [] (l.slots.map (Slot.after h) ++ h.slots) := rfl
  rw [htokens, resolve_append, resolve_later hclosed, resolve_earlier _ _ hclosed.slots, tokens]

end History

/-- Below the first line, a run adds the same tokens to those of every history. -/
theorem Lexer.reads_on (fuel : Nat) (l : Lexer) :
    ∃ later : Option (List Token), ∀ h : History, 0 < h.lines → h.Closed →
      (run fuel (l.after h)).map tokens = later.map fun ts => resolve h.keys ts h.slots := by
  obtain ⟨r, hr⟩ := run_after fuel l
  refine ⟨r.map tokens, fun h hlines hclosed => ?_⟩
  rw [hr h hlines, Option.map_map, Option.map_map]
  exact congrFun (congrArg Option.map (funext (History.tokens_after hclosed))) r

end Yaml
end Conveyor
