import Conveyor.Text.Lines

/-!
# Conveyor.Proofs.Text.Lines

Texts that are put together from lines.

A tidy line comes out of a text as it went in, whichever line end follows it. Only a last line
that is empty is not told from none, as nothing follows it.

* `Text.Tidy`            — a line that can be told from its line end.
* `Text.Joined`          — a text of lines with a line end between each two of them.
* `Text.printed`         — a text of lines, each followed by a line feed.
* `Text.lines_of_joined`, `Text.lines_printed` — the lines that are read of such texts.
-/

namespace Conveyor
namespace Text

/-- A line that can be told from its line end. -/
structure Tidy (line : List Char) : Prop where
  feedless : '\n' ∉ line
  returnless : line.getLast? ≠ some '\r'

theorem tidy_of_all {line : List Char} (h : line.all (fun c => c ≠ '\n' ∧ c ≠ '\r') = true) :
    Tidy line := by
  have hbare : ∀ c ∈ line, c ≠ '\n' ∧ c ≠ '\r' := by
    simpa using h
  exact ⟨fun hfeed => (hbare _ hfeed).1 rfl,
    fun hreturn => (hbare _ (List.mem_of_getLast? hreturn)).2 rfl⟩

theorem tidy_nil : Tidy [] := tidy_of_all rfl

/-- Lines with a line end between each two of them, in one text. -/
inductive Joined : List String → String → Prop where
  | nil : Joined [] ""
  | single (line : String) : Joined [line] line
  | feed (line : String) {next : String} {rest : List String} {text : String} :
      Joined (next :: rest) text → Joined (line :: next :: rest) (line ++ "\n" ++ text)
  | returnFeed (line : String) {next : String} {rest : List String} {text : String} :
      Joined (next :: rest) text → Joined (line :: next :: rest) (line ++ "\r\n" ++ text)

/-- Lines in one text, each followed by a line feed. -/
def printed (ls : List String) : String := String.join (ls.map (· ++ "\n"))

/-! ## Reading one line -/

theorem chompReturn_of_returnless {line : List Char} (h : line.getLast? ≠ some '\r') :
    chompReturn line = line := by
  unfold chompReturn
  split
  · rename_i rest hreverse
    rw [List.getLast?_eq_head?_reverse, hreverse] at h
    exact absurd rfl h
  · rfl

theorem chompReturn_concat (line : List Char) : chompReturn (line ++ ['\r']) = line := by
  have hreverse : (line ++ ['\r']).reverse = '\r' :: line.reverse := List.reverse_concat ..
  rw [chompReturn, hreverse]
  exact List.reverse_reverse line

theorem dropReturns_of_returnless {line : String} (h : line.toList.getLast? ≠ some '\r') :
    dropReturns line = line := by
  rw [List.getLast?_eq_head?_reverse] at h
  have hkept : line.toList.reverse.dropWhile (· = '\r') = line.toList.reverse := by
    cases hreverse : line.toList.reverse with
    | nil => rfl
    | cons c rest =>
      rw [hreverse] at h
      exact List.dropWhile_cons_of_neg (by simpa using h)
  rw [dropReturns, hkept, List.reverse_reverse, String.ofList_toList]

theorem linesFrom_pass {c : Char} (h : c ≠ '\n') (cur cs : List Char) :
    linesFrom cur (c :: cs) = linesFrom (c :: cur) cs := by
  rw [linesFrom]
  exact h

theorem linesFrom_feed {line : List Char} (h : '\n' ∉ line) (cur rest : List Char) :
    linesFrom cur (line ++ '\n' :: rest) =
      chompReturn (cur.reverse ++ line) :: linesFrom [] rest := by
  induction line generalizing cur with
  | nil => rw [List.nil_append, List.append_nil, linesFrom]
  | cons c line ih =>
    obtain ⟨hc, hline⟩ := not_or.1 (mt List.mem_cons.2 h)
    rw [List.cons_append, linesFrom_pass (Ne.symm hc), ih hline, List.reverse_cons,
      List.append_assoc, List.singleton_append]

theorem linesFrom_last {line : List Char} (h : '\n' ∉ line) (cur : List Char) :
    linesFrom cur line = if cur.reverse ++ line = [] then [] else [cur.reverse ++ line] := by
  induction line generalizing cur with
  | nil => simp [linesFrom]
  | cons c line ih =>
    obtain ⟨hc, hline⟩ := not_or.1 (mt List.mem_cons.2 h)
    rw [linesFrom_pass (Ne.symm hc), ih hline, List.reverse_cons, List.append_assoc,
      List.singleton_append]

/-- A tidy line is read as it is, whichever line end follows it. -/
theorem linesFrom_tidy {line : List Char} (h : Tidy line) (rest : List Char) :
    linesFrom [] (line ++ '\n' :: rest) = line :: linesFrom [] rest ∧
      linesFrom [] (line ++ '\r' :: '\n' :: rest) = line :: linesFrom [] rest := by
  constructor
  · rw [linesFrom_feed h.feedless, List.reverse_nil, List.nil_append,
      chompReturn_of_returnless h.returnless]
  · have hfeedless : '\n' ∉ line ++ ['\r'] := by
      simpa using h.feedless
    have hsplit : line ++ '\r' :: '\n' :: rest = (line ++ ['\r']) ++ '\n' :: rest := by
      simp
    rw [hsplit, linesFrom_feed hfeedless, List.reverse_nil, List.nil_append, chompReturn_concat]

theorem linesFrom_flatMap {ls : List (List Char)} (h : ∀ l ∈ ls, Tidy l) :
    linesFrom [] (ls.flatMap (· ++ ['\n'])) = ls := by
  induction ls with
  | nil => rfl
  | cons l ls ih =>
    obtain ⟨hl, hls⟩ := List.forall_mem_cons.1 h
    rw [List.flatMap_cons, List.append_assoc, List.singleton_append, (linesFrom_tidy hl _).1,
      ih hls]

/-! ## Reading a text -/

theorem toList_printed (ls : List String) :
    (printed ls).toList = (ls.map String.toList).flatMap (· ++ ['\n']) := by
  simp [printed, List.flatMap_map]

theorem lines_printed {ls : List String} (h : ∀ l ∈ ls, Tidy l.toList) :
    lines (printed ls) = ls := by
  rw [lines, toList_printed, linesFrom_flatMap (List.forall_mem_map.2 h), List.map_map]
  simp

theorem lines_feed {line : String} (h : Tidy line.toList) (text : String) :
    lines (line ++ "\n" ++ text) = line :: lines text ∧
      lines (line ++ "\r\n" ++ text) = line :: lines text := by
  obtain ⟨hfeed, hreturn⟩ := linesFrom_tidy h text.toList
  constructor
  · simp [lines, hfeed]
  · simp [lines, hreturn]

/-- Every line of a text is read, apart from an empty one at the end. -/
theorem lines_of_joined {ls : List String} {text : String} (hjoined : Joined ls text)
    (h : ∀ l ∈ ls, Tidy l.toList) : lines text = ls ∨ lines text ++ [""] = ls := by
  induction hjoined with
  | nil => exact .inl rfl
  | single line =>
    have htidy := h line List.mem_cons_self
    by_cases hline : line = ""
    · exact .inr (by rw [hline]; rfl)
    · exact .inl (by simp [lines, linesFrom_last htidy.feedless, hline])
  | feed line _ ih | returnFeed line _ ih =>
    obtain ⟨hline, hrest⟩ := List.forall_mem_cons.1 h
    simp only [lines_feed hline, List.cons_append, List.cons.injEq, true_and]
    exact ih hrest

end Text
end Conveyor
