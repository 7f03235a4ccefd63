import Conveyor.Run
import Conveyor.Proofs.Pipeline.RoundTrip
import Conveyor.Proofs.Text.Bytes

/-!
# Conveyor.Proofs.Run.Fingerprint

What a fingerprint tells of the definition and of the trigger.

Both are written into one text, with nothing between them. A value is read from the front of any
text that does not go on with a number, so the reader finds the end of the definition, and what is
left is the trigger. Two documents are equal then, and every field of a document is read back to
the value it was written for. References are the exception again. They need not be read back here,
for what is read may have lost its blanks; it is enough that their texts are cut where they were
joined.

* `Json.compact_append_inj`   — a text tells the value at its front and what follows it.
* `OutputRef.text_inj`        — a text that is cut where it was joined tells its reference.
* `Stage.toJson_inj`, `Pipeline.toJson_inj` — a document tells its definition.
* `Blake3.hash_of_hex`        — a written digest tells the digest.
* `fingerprint_identifies`    — the hashed bytes tell the definition and the trigger.
-/

namespace Conveyor

/-! ## Texts -/

namespace Json

variable {j k : Json} {r s : List Char}

/-- A text tells the value at its front and what follows it. -/
theorem compact_append_inj (hj : j.Plain) (hk : k.Plain) (hr : Stops r) (hs : Stops s)
    (h : compactChars j ++ r = compactChars k ++ s) : j = k ∧ r = s := by
  have hleft := readValue_compact hj _ r (Nat.le_max_left _ (compactChars k).length) hr
  have hright := readValue_compact hk _ s (Nat.le_max_right (compactChars j).length _) hs
  rw [h, hright] at hleft
  cases hleft
  exact ⟨rfl, rfl⟩

theorem compactChars_inj (hj : j.Plain) (hk : k.Plain) (h : compactChars j = compactChars k) :
    j = k :=
  (compact_append_inj hj hk stops_nil stops_nil (by rw [h])).1

end Json

/-! ## Documents -/

/-- What can be read back is told by the document. -/
theorem Schema.inj_of_read {α : Type} {read : Json → Option α} {write : α → Json} {a b : α}
    (hread : ∀ a, read (write a) = some a) (h : write a = write b) : a = b := by
  have hsome := hread a
  rw [h, hread b] at hsome
  exact (Option.some.inj hsome).symm

theorem eq_of_map_eq {α β : Type} {f : α → β} {P : α → Prop}
    (hf : ∀ a b, P a → P b → f a = f b → a = b) :
    ∀ {l m : List α}, (∀ a ∈ l, P a) → (∀ a ∈ m, P a) → l.map f = m.map f → l = m := by
  intro l
  induction l with
  | nil =>
    intro m _ _ h
    exact (List.map_eq_nil_iff.1 h.symm).symm
  | cons a l ih =>
    intro m hl hm h
    cases m with
    | nil => cases h
    | cons b m =>
      obtain ⟨hhead, htail⟩ := List.cons.inj h
      obtain ⟨ha, hl⟩ := List.forall_mem_cons.1 hl
      obtain ⟨hb, hm⟩ := List.forall_mem_cons.1 hm
      rw [hf a b ha hb hhead, ih hl hm htail]

namespace OutputRef

variable {r r' : OutputRef}

theorem text_inj (hr : r.Cut) (hr' : r'.Cut) (h : r.text = r'.text) : r = r' := by
  have hparts := congrArg String.toList h
  rw [toList_text, toList_text, Text.append_cons_inj hr hr'] at hparts
  obtain ⟨hstage, hkey⟩ := hparts
  rw [String.toList_inj] at hstage hkey
  calc r = ⟨r.stage, r.key⟩ := rfl
    _ = ⟨r'.stage, r'.key⟩ := by rw [hstage, hkey]

-- A point in the name of the stage would be taken for the one between the two parts.
example : (⟨"a.b", "c"⟩ : OutputRef).text = (⟨"a", "b.c"⟩ : OutputRef).text := by decide

end OutputRef

/-- A document tells its stage. Without the inputs the stage is read back from it, and each
reference is told by its own text. -/
theorem Stage.toJson_inj {s s' : Stage} (hs : ∀ e ∈ s.inputs.entries, e.2.Cut)
    (hs' : ∀ e ∈ s'.inputs.entries, e.2.Cut) (h : s.toJson = s'.toJson) : s = s' := by
  have hfields := h
  simp only [toJson, Json.obj.injEq, List.cons.injEq, Prod.mk.injEq, true_and] at hfields
  have hinputs : s.inputs = s'.inputs := by
    obtain ⟨_, _, _, _, _, htexts, _⟩ := hfields
    refine Dict.ext (eq_of_map_eq ?_ hs hs' htexts)
    rintro ⟨k, r⟩ ⟨k', r'⟩ hr hr' hentry
    obtain ⟨hname, htext⟩ := Prod.mk.inj hentry
    exact Prod.ext hname (OutputRef.text_inj hr hr' (Json.str.inj htext))
  have hothers : ({ s with inputs := ∅ } : Stage) = { s' with inputs := ∅ } := by
    have hread (s : Stage) : decode? ({ s with inputs := ∅ } : Stage).toJson =
        some { s with inputs := ∅ } := decode?_eq_some_iff.2 (List.forall_mem_nil _)
    have hsame : ({ s with inputs := ∅ } : Stage).toJson =
        ({ s' with inputs := ∅ } : Stage).toJson := by
      simp only [toJson, hfields]
    exact Option.some.inj (by rw [← hread s, hsame, hread s'])
  calc s = { ({ s with inputs := ∅ } : Stage) with inputs := s.inputs } := rfl
    _ = { ({ s' with inputs := ∅ } : Stage) with inputs := s'.inputs } := by rw [hothers, hinputs]

theorem Pipeline.toJson_inj {p q : Pipeline}
    (hp : ∀ s ∈ p.stages, ∀ e ∈ s.inputs.entries, e.2.Cut)
    (hq : ∀ s ∈ q.stages, ∀ e ∈ s.inputs.entries, e.2.Cut) (h : p.toJson = q.toJson) : p = q := by
  have hfields := h
  simp only [toJson, Json.obj.injEq, List.cons.injEq, Prod.mk.injEq, true_and] at hfields
  have hstages : p.stages = q.stages := by
    obtain ⟨_, _, _, _, _, hdocuments, _⟩ := hfields
    exact eq_of_map_eq (fun _ _ hs hs' => Stage.toJson_inj hs hs') hp hq (Json.arr.inj hdocuments)
  have hothers : ({ p with stages := [] } : Pipeline) = { q with stages := [] } := by
    have hread (p : Pipeline) : decode? ({ p with stages := [] } : Pipeline).toJson =
        some { p with stages := [] } := decode?_eq_some_iff.2 (List.forall_mem_nil _)
    have hsame : ({ p with stages := [] } : Pipeline).toJson =
        ({ q with stages := [] } : Pipeline).toJson := by
      simp only [toJson, hfields]
    exact Option.some.inj (by rw [← hread p, hsame, hread q])
  calc p = { ({ p with stages := [] } : Pipeline) with stages := p.stages } := rfl
    _ = { ({ q with stages := [] } : Pipeline) with stages := q.stages } := by rw [hothers, hstages]

theorem Trigger.toJson_inj {t u : Trigger} (h : t.toJson = u.toJson) : t = u := by
  simp only [toJson, Json.obj.injEq, List.cons.injEq, Prod.mk.injEq, true_and, Json.str.injEq,
    and_true] at h
  have hevent := Schema.inj_of_read Schema.eventKind_name (congrArg Json.str h.1)
  calc t = ⟨t.event, t.ref⟩ := rfl
    _ = u := by rw [hevent, h.2]

theorem Trigger.stops_toJson (t : Trigger) : Json.Stops (Json.compactChars t.toJson) := by
  rw [toJson, Json.compactChars]
  exact Json.stops_cons (by decide)

theorem Trigger.plain_toJson (t : Trigger) : t.toJson.Plain := by
  refine .obj ?_
  simp only [List.forall_mem_cons]
  exact ⟨.str, .str, nofun⟩

/-! ## Digests -/

namespace Blake3

theorem hexDigit_inj : ∀ m < 16, ∀ n < 16, hexDigit m = hexDigit n → m = n := by decide

theorem digits_inj : ∀ {l m : List UInt8},
    (l.flatMap fun b => [hexDigit (b.toNat / 16), hexDigit (b.toNat % 16)]) =
      (m.flatMap fun b => [hexDigit (b.toNat / 16), hexDigit (b.toNat % 16)]) → l = m := by
  intro l
  induction l with
  | nil =>
    intro m h
    cases m with
    | nil => rfl
    | cons => cases h
  | cons a l ih =>
    intro m h
    cases m with
    | nil => cases h
    | cons b m =>
      simp only [List.flatMap_cons, List.cons_append, List.nil_append, List.cons.injEq] at h
      obtain ⟨hhigh, hlow, htail⟩ := h
      have ha := a.toNat_lt
      have hb := b.toNat_lt
      have hdiv := hexDigit_inj _ (by omega) _ (by omega) hhigh
      have hmod := hexDigit_inj _ (by omega) _ (by omega) hlow
      have hbyte : a = b := UInt8.toNat_inj.1 (by omega)
      rw [hbyte, ih htail]

theorem hash_of_hex {a b : List UInt8} (h : hex a = hex b) : hash a = hash b :=
  digits_inj (String.ofList_injective h)

end Blake3

/-! ## Fingerprints -/

def fingerprintBytes (p : Pipeline) (t : Trigger) : List UInt8 :=
  (fingerprintText p t).toUTF8.toList

/-- The bytes that are hashed tell the definition and the trigger, if the references in the two
definitions are cut where they were joined, as all are that were read: no part of one shifts into
the other, and two definitions are never written alike. So the fingerprints of different runs
differ, unless the hash itself takes their bytes to one digest. -/
theorem fingerprint_identifies {p q : Pipeline}
    (hp : ∀ s ∈ p.stages, ∀ e ∈ s.inputs.entries, e.2.Cut)
    (hq : ∀ s ∈ q.stages, ∀ e ∈ s.inputs.entries, e.2.Cut) (t u : Trigger) :
    (fingerprintBytes p t = fingerprintBytes q u ↔ p = q ∧ t = u) ∧
    (p.toJson.compact = q.toJson.compact ↔ p = q) ∧
    ((Blake3.hash (fingerprintBytes p t) = Blake3.hash (fingerprintBytes q u) →
        fingerprintBytes p t = fingerprintBytes q u) →
      (fingerprint p t = fingerprint q u ↔ p = q ∧ t = u)) := by
  have hbytes : fingerprintBytes p t = fingerprintBytes q u ↔ p = q ∧ t = u := by
    constructor
    · intro h
      have htext := String.toList_inj.2 (toUTF8_inj h)
      simp only [fingerprintText, Json.compact, String.toList_append, String.toList_ofList] at htext
      obtain ⟨hdefinition, htrigger⟩ := Json.compact_append_inj p.plain_toJson q.plain_toJson
        t.stops_toJson u.stops_toJson htext
      exact ⟨Pipeline.toJson_inj hp hq hdefinition,
        Trigger.toJson_inj (Json.compactChars_inj t.plain_toJson u.plain_toJson htrigger)⟩
    · rintro ⟨rfl, rfl⟩
      rfl
  refine ⟨hbytes, ⟨fun h => ?_, fun h => by rw [h]⟩, fun hcollision => ⟨fun h => ?_, ?_⟩⟩
  · have htext := String.ofList_injective h
    exact Pipeline.toJson_inj hp hq (Json.compactChars_inj p.plain_toJson q.plain_toJson htext)
  · exact hbytes.1 (hcollision (Blake3.hash_of_hex h))
  · rintro ⟨rfl, rfl⟩
    rfl

/-- A program with its arguments, or a script, on what another stage has built. -/
def packing (run : Command) : Pipeline where
  name := "release"
  stages := [{ name := "build", run := .script "make", outputs := ["dist.tar"] },
    { name := "pack", run, inputs := ⟨[("DIST", ⟨"build", "dist.tar"⟩)], by simp [SortedKeys]⟩ }]

/-- A program is told from the script that is written like it, also where an input is bound to a
key that has a point. -/
theorem fingerprint_identifies_packing :
    fingerprintBytes (packing (.argv ["tar"])) ⟨.push, "main"⟩ ≠
      fingerprintBytes (packing (.script "[\"tar\"]")) ⟨.push, "main"⟩ := by
  have hcut (run : Command) : ∀ s ∈ (packing run).stages, ∀ e ∈ s.inputs.entries, e.2.Cut := by
    intro s hs e he
    rcases List.mem_pair.1 hs with rfl | rfl
    · cases he
    · obtain rfl := List.mem_singleton.1 he
      exact show '.' ∉ "build".toList by decide
  intro h
  have hsame := ((fingerprint_identifies (hcut _) (hcut _) _ _).1.1 h).1
  cases hsame

end Conveyor
