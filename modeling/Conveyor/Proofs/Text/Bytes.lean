import Conveyor.Proofs.Text.Lines
import Conveyor.Text.Bytes

/-!
# Conveyor.Proofs.Text.Bytes

Texts as bytes, and the lines that are collected of them.

A character of several bytes has none of ASCII among them. So a line feed among the bytes is one of
the text, and a carriage return at the end of a line of bytes is one at the end of the line: the
lines of the bytes are the bytes of the lines (`linesFrom_ofString_printed`).

Collecting puts a line feed in front of a line unless nothing is collected yet. It looks at the
text for that and not at the lines, so the empty lines at the front of a stream are lost, and no
others.

* `toList_eq_data`, `toUTF8_inj` — the bytes of a text as a list.
* `Bytes.toString?_ofString`     — a text is read back from its bytes.
* `Bytes.joinLines_ofString`     — what is collected once there is something.
* `Bytes.collected_exact`        — what is collected of lines, and when none of them is lost.
-/

namespace Conveyor

/-! ## Bytes in lists -/

theorem toList_loop (bytes : ByteArray) (i : Nat) (acc : List UInt8) :
    ByteArray.toList.loop bytes i acc = acc.reverse ++ bytes.data.toList.drop i := by
  fun_induction ByteArray.toList.loop bytes i acc with
  | case1 i acc hi ih =>
    have hlist : i < bytes.data.toList.length := by simpa using hi
    have hget : bytes.get! i = bytes.data.toList[i] := getElem!_pos bytes.data i (by simpa using hi)
    rw [ih, List.drop_eq_getElem_cons hlist, hget]
    simp
  | case2 i acc hi =>
    have hlist : bytes.data.toList.length ≤ i := by simpa using hi
    rw [List.drop_eq_nil_of_le hlist, List.append_nil]

theorem toList_eq_data (bytes : ByteArray) : bytes.toList = bytes.data.toList :=
  toList_loop bytes 0 []

theorem toUTF8_inj {s t : String} (h : s.toUTF8.toList = t.toUTF8.toList) : s = t := by
  rw [toList_eq_data, toList_eq_data] at h
  exact String.toByteArray_inj.1 (ByteArray.ext (Array.toList_inj.1 h))

namespace Bytes

/-! ## Characters -/

def ofChar (c : Char) : Bytes := (String.utf8EncodeChar c).map fun b => Char.ofNat b.toNat

theorem ofString_eq_flatMap (s : String) : ofString s = s.toList.flatMap ofChar := by
  have hbytes : s.toUTF8.toList = s.toList.flatMap String.utf8EncodeChar := by
    rw [toList_eq_data, String.toUTF8, ← String.utf8Encode_toList, List.utf8Encode,
      List.toList_data_toByteArray]
  rw [ofString, hbytes, List.map_flatMap]
  rfl

theorem toNat_ofNat_of_lt {n : Nat} (h : n < 256) : (Char.ofNat n).toNat = n := by
  have hvalid : n.isValidChar := .inl (by omega)
  rw [Char.ofNat, dif_pos hvalid]
  rfl

theorem utf8EncodeChar_cases (c : Char) :
    String.utf8EncodeChar c = [UInt8.ofNat c.toNat] ∧ c.toNat < 128 ∨
      ∀ b ∈ String.utf8EncodeChar c, 128 ≤ b.toNat := by
  fun_cases String.utf8EncodeChar c with
  | case1 code hone => exact .inl ⟨rfl, Nat.lt_succ_of_le hone⟩
  | case2 | case3 | case4 =>
    refine .inr ?_
    simp only [List.forall_mem_cons, List.not_mem_nil, false_implies, implies_true, and_true,
      UInt8.toNat_ofNat']
    omega

theorem eq_of_mem_ofChar {a c : Char} (hascii : a.toNat < 128) (h : a ∈ ofChar c) : c = a := by
  obtain ⟨b, hb, rfl⟩ := List.mem_map.1 h
  rw [toNat_ofNat_of_lt b.toNat_lt] at hascii
  rcases utf8EncodeChar_cases c with ⟨hone, hc⟩ | hseveral
  · rw [hone, List.mem_singleton] at hb
    have hcode : b.toNat = c.toNat := by
      rw [hb, UInt8.toNat_ofNat']
      omega
    rw [hcode, Char.ofNat_toNat]
  · have hbeyond := hseveral b hb
    omega

theorem ofChar_ne_nil (c : Char) : ofChar c ≠ [] := by
  simp [ofChar, String.utf8EncodeChar_ne_nil]

/-! ## Texts -/

theorem toString?_ofString (s : String) : toString? (ofString s) = some s := by
  have hback : (ofString s).map (fun c => UInt8.ofNat c.toNat) = s.toUTF8.toList := by
    rw [ofString, List.map_map]
    refine (List.map_congr_left fun b _ => ?_).trans (List.map_id _)
    rw [Function.comp_apply, toNat_ofNat_of_lt b.toNat_lt, UInt8.ofNat_toNat, id]
  have hbytes : ByteArray.mk s.toUTF8.toList.toArray = s.toByteArray := by
    rw [toList_eq_data]
    rfl
  rw [toString?, hback, hbytes, String.fromUTF8?, dif_pos s.isValidUTF8]
  rfl

theorem tidy_ofString {s : String} (h : Text.Tidy s.toList) : Text.Tidy (ofString s) := by
  rw [ofString_eq_flatMap]
  constructor
  · intro hfeed
    obtain ⟨c, hc, hmem⟩ := List.mem_flatMap.1 hfeed
    exact h.feedless (eq_of_mem_ofChar (by decide) hmem ▸ hc)
  · cases hlast : s.toList.getLast? with
    | none => simp [List.getLast?_eq_none_iff.1 hlast]
    | some c =>
      obtain ⟨front, hsplit⟩ := List.getLast?_eq_some_iff.1 hlast
      have hc : c ≠ '\r' := fun heq => h.returnless (heq ▸ hlast)
      have hmem := List.getLast_mem (ofChar_ne_nil c)
      rw [hsplit, List.flatMap_append, List.flatMap_singleton, List.getLast?_append,
        List.getLast?_eq_some_getLast (ofChar_ne_nil c), Option.some_or]
      intro hreturn
      rw [Option.some.inj hreturn] at hmem
      exact hc (eq_of_mem_ofChar (by decide) hmem)

/-- The lines of the bytes are the bytes of the lines. -/
theorem linesFrom_ofString_printed {ls : List String} (h : ∀ l ∈ ls, Text.Tidy l.toList) :
    Text.linesFrom [] (ofString (Text.printed ls)) = ls.map ofString := by
  have hbytes : ofString (Text.printed ls) = (ls.map ofString).flatMap (· ++ ['\n']) := by
    have hfeed : ofChar '\n' = ['\n'] := rfl
    simp [ofString_eq_flatMap, Text.toList_printed, List.flatMap_assoc, List.flatMap_map, hfeed]
  rw [hbytes, Text.linesFrom_flatMap]
  exact List.forall_mem_map.2 fun l hl => tidy_ofString (h l hl)

/-! ## Collecting -/

/-- Once something is collected, every line is kept. -/
theorem joinLines_ofString {acc : String} (h : acc ≠ "") (ls : List String) :
    joinLines acc (ls.map ofString) = Text.unlines (acc :: ls) := by
  induction ls generalizing acc with
  | nil => simp [joinLines, Text.unlines]
  | cons l ls ih =>
    have hmore : acc ++ "\n" ++ l ≠ "" := by simp [h]
    have hopen : acc.isEmpty = false := by simpa using h
    rw [List.map_cons, joinLines, toString?_ofString]
    simp only [hopen, Bool.false_eq_true, if_false]
    rw [ih hmore, Text.unlines, Text.unlines, String.intercalate_cons_append,
      String.intercalate_cons_cons]

/-- Until something is collected, an empty line leaves no trace. -/
theorem joinLines_empty (ls : List String) :
    joinLines "" (ls.map ofString) = Text.unlines (ls.dropWhile (· = "")) := by
  induction ls with
  | nil => rfl
  | cons l ls ih =>
    rw [List.map_cons, joinLines, toString?_ofString]
    by_cases hl : l = ""
    · subst hl
      simpa using ih
    · rw [List.dropWhile_cons_of_neg (by simpa using hl)]
      exact joinLines_ofString hl ls

theorem head?_unlines_dropWhile {ls : List String} (h : ∀ l ∈ ls, Text.Tidy l.toList) :
    (Text.unlines (ls.dropWhile (· = ""))).toList.head? ≠ some '\n' := by
  cases hleft : ls.dropWhile (· = "") with
  | nil => simp [Text.unlines]
  | cons l rest =>
    have hl : l ≠ "" := by
      have hhead := List.head?_dropWhile_not (· = "") ls
      rw [hleft] at hhead
      simpa using hhead
    have htidy : Text.Tidy l.toList :=
      h l ((List.dropWhile_sublist _).subset (hleft ▸ List.mem_cons_self))
    have hfront : l.toList <+: (Text.unlines (l :: rest)).toList := by
      cases rest <;> simp [Text.unlines]
    obtain ⟨c, cs, hchars⟩ := List.exists_cons_of_ne_nil (mt String.toList_eq_nil_iff.1 hl)
    obtain ⟨more, hsplit⟩ := hfront
    rw [← hsplit, hchars, List.cons_append, List.head?_cons]
    intro hfeed
    exact htidy.feedless (hchars ▸ Option.some.inj hfeed ▸ List.mem_cons_self)

/-- Empty lines at the front can be left out if there is no other line. -/
theorem unlines_dropWhile_iff {ls : List String} (h : ∀ l ∈ ls, Text.Tidy l.toList) :
    Text.unlines (ls.dropWhile (· = "")) = Text.unlines ls ↔ (ls.head? = some "" → ls = [""]) := by
  cases ls with
  | nil => simp
  | cons l rest =>
    by_cases hl : l = ""
    · subst hl
      cases rest with
      | nil => simp [Text.unlines]
      | cons next rest =>
        have hfeed : (Text.unlines ("" :: next :: rest)).toList.head? = some '\n' := by
          simp [Text.unlines]
        have hdiffer := head?_unlines_dropWhile h
        refine iff_of_false (fun hsame => hdiffer (hsame ▸ hfeed)) ?_
        simp
    · simp [hl]

/-- Of lines that are written, each followed by a line feed, all are collected and joined by line
feeds, but for the empty ones at the front. So what is collected are the lines, joined by line
feeds, exactly if the first one is not empty or there is no other. -/
theorem collected_exact {ls : List String} (h : ∀ l ∈ ls, Text.Tidy l.toList) :
    collect (ofString (Text.printed ls)) = Text.unlines (ls.dropWhile (· = "")) ∧
    (collect (ofString (Text.printed ls)) = Text.unlines ls ↔
      (ls.head? = some "" → ls = [""])) := by
  have hcollected : collect (ofString (Text.printed ls)) =
      Text.unlines (ls.dropWhile (· = "")) := by
    rw [collect, linesFrom_ofString_printed h, joinLines_empty]
  exact ⟨hcollected, by rw [hcollected, unlines_dropWhile_iff h]⟩

theorem collected_exact_leading :
    collect (ofString (Text.printed ["", "x", "", "é"])) = "x\n\né" ∧
    collect (ofString (Text.printed ["", "x", "", "é"])) ≠ Text.unlines ["", "x", "", "é"] := by
  have htidy : ∀ l ∈ ["", "x", "", "é"], Text.Tidy l.toList := by
    simp only [List.forall_mem_cons]
    exact ⟨⟨by decide, by decide⟩, ⟨by decide, by decide⟩, ⟨by decide, by decide⟩,
      ⟨by decide, by decide⟩, by simp⟩
  obtain ⟨hall, hkept⟩ := collected_exact htidy
  exact ⟨hall, mt hkept.1 (by decide)⟩

end Bytes
end Conveyor
