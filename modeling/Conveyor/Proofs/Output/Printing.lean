import Conveyor.Proofs.Output.Markers
import Conveyor.Proofs.Pipeline.Validity
import Conveyor.Proofs.Text.Lines
import Mathlib.Data.List.TakeWhile

/-!
# Conveyor.Proofs.Output.Printing

What is published by printing lines, some of which are markers.

A key has no colon in it, so the first two colons after the opening end the key, and whatever
follows them is the value, further colons included. A line that was not printed as a marker
publishes something only if it is spelled like one.

* `Marker.Line`          — a line that is printed, as a marker or as anything else.
* `Marker.ofLine_text`   — a line publishes what it was printed for.
* `Marker.collect_exact` — the last line for a key is what counts, and nothing else is published.
-/

namespace Conveyor

namespace Marker

/-! ## Lines -/

/-- `[A-Za-z0-9_.-]` -/
def KeyPart (c : Char) : Prop := IsLetter c ∨ IsDigit c ∨ c = '_' ∨ c = '.' ∨ c = '-'

/-- `[A-Za-z0-9_.-]+` -/
def Keyed : String → Prop := Spelled KeyPart KeyPart

/-- A line that is printed: a marker, or anything else. -/
inductive Line where
  | marker (key value : String)
  | other (text : String)

namespace Line

def text : Line → String
  | .marker key value => "::set-output name=" ++ key ++ "::" ++ value
  | .other text => text

/-- What the line is to publish. -/
def entry? : Line → Option (String × String)
  | .marker key value => some (key, value)
  | .other _ => none

/-- The line can be told from its line end, and it is a marker only if it was printed as one. -/
def Clear : Line → Prop
  | .marker key value => Keyed key ∧ Text.Tidy value.toList
  | .other text => Text.Tidy text.toList ∧ ∀ key value, Keyed key → Text.Tidy value.toList →
      text ≠ (marker key value).text

end Line

/-- The last line that is a marker of the key has the value. -/
def Latest (lines : List Line) (key value : String) : Prop :=
  ∃ before after, lines = before ++ .marker key value :: after ∧ ∀ v, .marker key v ∉ after

variable {key value : String} {l : Line} {lines : List Line} {text : String}

theorem isKeyChar_iff {c : Char} : isKeyChar c = true ↔ KeyPart c := by
  simp [isKeyChar, KeyPart, isAlphanum_iff, or_assoc]

theorem keyed_iff : Keyed key ↔ key.toList ≠ [] ∧ ∀ c ∈ key.toList, isKeyChar c = true := by
  simp only [Keyed, Spelled, isKeyChar_iff]
  cases key.toList with
  | nil => simp
  | cons c cs => simp

theorem toList_marker (key value : String) : (Line.marker key value).text.toList =
    opening ++ (key.toList ++ ':' :: ':' :: value.toList) := by
  have hcolons : "::".toList = [':', ':'] := by simp
  have htext : (Line.marker key value).text = "::set-output name=" ++ key ++ "::" ++ value := rfl
  rw [htext, String.toList_append, String.toList_append, String.toList_append, hcolons,
    List.append_assoc, List.append_assoc]
  rfl

/-- A marker publishes its value: no colon belongs to the key. -/
theorem ofLine_marker (h : Keyed key) (value : String) :
    ofLine (Line.marker key value).text.toList = some (key, value) := by
  obtain ⟨hne, hparts⟩ := keyed_iff.1 h
  have hopening := Text.dropPrefix_eq_some_iff.2 (toList_marker key value)
  have hcolon : ¬ isKeyChar ':' = true := by decide
  have hkey : (key.toList ++ ':' :: ':' :: value.toList).takeWhile isKeyChar = key.toList := by
    rw [List.takeWhile_append_of_pos hparts, List.takeWhile_cons_of_neg hcolon,
      List.append_nil]
  have hrest : (key.toList ++ ':' :: ':' :: value.toList).dropWhile isKeyChar =
      ':' :: ':' :: value.toList := by
    rw [List.dropWhile_append_of_pos hparts, List.dropWhile_cons_of_neg hcolon]
  rw [ofLine, hopening]
  dsimp only
  split
  · rename_i hnil
    exact absurd (hkey.symm.trans hnil) hne
  · rename_i hvalue _
    rw [hrest] at hvalue
    cases hvalue
    rw [hkey, String.ofList_toList, String.ofList_toList]
  · rename_i hother
    exact (hother _ hrest).elim

theorem keyed_of_ofLine {line : List Char} (h : ofLine line = some (key, value)) : Keyed key := by
  rw [ofLine] at h
  split at h
  · cases h
  · rename_i rest _
    dsimp only at h
    split at h
    · cases h
    · rename_i hne
      cases h
      rw [keyed_iff, String.toList_ofList]
      exact ⟨hne, fun c hc => List.mem_takeWhile_imp hc⟩
    · cases h

theorem tidy_value (h : Text.Tidy (Line.marker key value).text.toList) :
    Text.Tidy value.toList := by
  rw [toList_marker] at h
  have hsuffix : value.toList <:+ opening ++ (key.toList ++ ':' :: ':' :: value.toList) :=
    ⟨opening ++ (key.toList ++ [':', ':']), by simp⟩
  refine ⟨fun hfeed => h.feedless (hsuffix.subset hfeed), fun hreturn => h.returnless ?_⟩
  simp [List.getLast?_append, List.getLast?_cons, hreturn]

namespace Line.Clear

theorem tidy (h : l.Clear) : Text.Tidy l.text.toList := by
  cases l with
  | other text => exact h.1
  | marker key value =>
    obtain ⟨hkey, hfeedless, hreturnless⟩ := h
    rw [toList_marker]
    constructor
    · have hopening : '\n' ∉ opening := by decide
      have hparts : '\n' ∉ key.toList := fun hfeed =>
        absurd ((keyed_iff.1 hkey).2 _ hfeed) (by decide)
      simp [hopening, hparts, hfeedless]
    · cases hlast : value.toList.getLast? with
      | none => simp [List.getLast?_append, List.getLast?_cons, hlast]
      | some c =>
        rw [hlast] at hreturnless
        simpa [List.getLast?_append, List.getLast?_cons, hlast] using hreturnless

theorem ofLine_text (h : l.Clear) : ofLine l.text.toList = l.entry? := by
  cases l with
  | marker key value => exact ofLine_marker h.1 value
  | other text =>
    cases hread : ofLine text.toList with
    | none => exact hread
    | some entry =>
      obtain ⟨key, value⟩ := entry
      have htext : text = (marker key value).text := by
        rw [← String.toList_inj, toList_marker]
        exact line_of_ofLine hread
      have hvalue : Text.Tidy value.toList := tidy_value (htext ▸ h.1)
      exact absurd htext (h.2 key value (keyed_of_ofLine hread) hvalue)

theorem of_ofLine {text : String} (htidy : Text.Tidy text.toList)
    (hread : ofLine text.toList = none) : (Line.other text).Clear := by
  refine ⟨htidy, ?_⟩
  rintro key value hkey _ rfl
  rw [ofLine_marker hkey] at hread
  cases hread

end Line.Clear

/-! ## Texts -/

theorem collect_of_joined (hjoined : Text.Joined (lines.map Line.text) text)
    (hclear : ∀ l ∈ lines, l.Clear) : collect text = Dict.ofList (lines.filterMap Line.entry?) := by
  let read := fun line : String => ofLine (Text.dropReturns line).toList
  have hlines : (Text.lines text).filterMap read = (lines.map Line.text).filterMap read := by
    have htidy : ∀ s ∈ lines.map Line.text, Text.Tidy s.toList :=
      List.forall_mem_map.2 fun l hl => (hclear l hl).tidy
    rcases Text.lines_of_joined hjoined htidy with hall | hall
    · rw [hall]
    · -- an empty line at the end is not read, and would publish nothing
      have hempty : read "" = none := by decide
      rw [← hall, List.filterMap_append]
      simp [hempty]
  have hentries : (lines.map Line.text).filterMap read = lines.filterMap Line.entry? := by
    rw [List.filterMap_map]
    refine List.filterMap_congr fun l hl => ?_
    have hl := hclear l hl
    rw [Function.comp_apply, ← hl.ofLine_text]
    simp only [read, Text.dropReturns_of_returnless hl.tidy.returnless]
  rw [collect, ← hentries, ← hlines]

theorem entry?_eq_some_iff : l.entry? = some (key, value) ↔ l = .marker key value := by
  cases l with
  | marker key' value' => simp [Line.entry?]
  | other text => simp [Line.entry?]

theorem latest_iff : Latest lines key value ↔ ∃ before after,
    lines.filterMap Line.entry? = before ++ (key, value) :: after ∧ ∀ v, (key, v) ∉ after := by
  constructor
  · rintro ⟨before, after, rfl, hafter⟩
    refine ⟨before.filterMap Line.entry?, after.filterMap Line.entry?, ?_, ?_⟩
    · rw [List.filterMap_append, List.filterMap_cons_some (entry?_eq_some_iff.2 rfl)]
    · intro v hv
      obtain ⟨l, hl, hentry⟩ := List.mem_filterMap.1 hv
      exact hafter v (entry?_eq_some_iff.1 hentry ▸ hl)
  · rintro ⟨before, after, hentries, hafter⟩
    obtain ⟨first, rest, rfl, _, hrest⟩ := List.filterMap_eq_append_iff.1 hentries
    obtain ⟨between, l, last, rfl, _, hl, rfl⟩ := List.filterMap_eq_cons_iff.1 hrest
    rw [entry?_eq_some_iff.1 hl]
    refine ⟨first ++ between, last, by simp, ?_⟩
    intro v hv
    exact hafter v (List.mem_filterMap.2 ⟨_, hv, entry?_eq_some_iff.2 rfl⟩)

/-- The markers of a text are recovered: a key has the value of the last line that was printed for
it, whatever lines stand between them and whichever line end follows each. So the entries of a
dictionary, printed as markers in any order and among any other lines, are read as the
dictionary. -/
theorem collect_exact (hjoined : Text.Joined (lines.map Line.text) text)
    (hclear : ∀ l ∈ lines, l.Clear) :
    (∀ key value, (collect text).get? key = some value ↔ Latest lines key value) ∧
    ∀ printed : Dict String, (lines.filterMap Line.entry?).Perm printed.entries →
      collect text = printed := by
  rw [collect_of_joined hjoined hclear]
  refine ⟨fun key value => ?_, fun printed hperm => Dict.ofList_of_perm hperm⟩
  rw [Dict.get?_ofList_iff, latest_iff]

/-- A build that names its version twice, with a line between that only looks like a marker. -/
def buildLines : List Line :=
  [.marker "version" "1.4.0-rc", .other "::set-output name=bad key::x",
    .marker "notes.url" "https://ci/→?a::b", .marker "version" "", .other ""]

def buildText : String :=
  "::set-output name=version::1.4.0-rc" ++ "\n" ++ ("::set-output name=bad key::x" ++ "\r\n" ++
    ("::set-output name=notes.url::https://ci/→?a::b" ++ "\r\n" ++
      ("::set-output name=version::" ++ "\n" ++ "")))

/-- The later version counts, although it is empty. -/
theorem collect_exact_build : (collect buildText).get? "version" = some "" ∧
    (collect buildText).get? "notes.url" = some "https://ci/→?a::b" ∧
    ∀ value, (collect buildText).get? "bad" ≠ some value := by
  have hjoined : Text.Joined (buildLines.map Line.text) buildText :=
    .feed _ (.returnFeed _ (.returnFeed _ (.feed _ (.single _))))
  have hversion : Keyed "version" := keyed_iff.2 ⟨by decide, List.all_eq_true.1 (by decide)⟩
  have hnotes : Keyed "notes.url" := keyed_iff.2 ⟨by decide, List.all_eq_true.1 (by decide)⟩
  have hclear : ∀ l ∈ buildLines, l.Clear := by
    simp only [buildLines, List.forall_mem_cons]
    refine ⟨⟨hversion, by decide, by decide⟩, .of_ofLine ⟨by decide, by decide⟩ (by decide),
      ⟨hnotes, by decide, by decide⟩, ⟨hversion, by decide, by decide⟩,
      .of_ofLine Text.tidy_nil rfl, List.forall_mem_nil _⟩
  obtain ⟨hlatest, _⟩ := collect_exact hjoined hclear
  refine ⟨(hlatest _ _).2 ?_, (hlatest _ _).2 ?_, fun value hvalue => ?_⟩
  · exact ⟨buildLines.take 3, buildLines.drop 4, rfl, by simp [buildLines]⟩
  · exact ⟨buildLines.take 2, buildLines.drop 3, rfl, by simp [buildLines]⟩
  · obtain ⟨before, after, hsplit, _⟩ := (hlatest _ _).1 hvalue
    have hmem : Line.marker "bad" value ∈ buildLines := hsplit ▸ by simp
    simp [buildLines] at hmem

end Marker
end Conveyor
