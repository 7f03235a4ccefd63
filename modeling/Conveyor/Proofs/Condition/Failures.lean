import Conveyor.Condition.Eval
import Conveyor.Proofs.Condition.Grammar
import Mathlib.Data.List.Forall2

/-!
# Conveyor.Proofs.Condition.Failures

At which part of a condition its evaluation fails.

A tree fails at a part that evaluation comes to, and with the error of that part. What it comes to
depends on the context: `&&` and `||` leave out their right operand once the left one decides, and
after a part that fails nothing else is evaluated. A part fails by itself, all that it is made of
having values, either for a reason that can be seen in the tree, or as a call of `outcome` or
`matches` with an argument that does not fit. In a tree that is well named only the second is left.

* `Expr.Reaches`          — evaluation of a tree comes to a part of it.
* `Expr.Misnamed`         — a part that fails in every context.
* `Expr.Breaks`           — a call that fails in this context.
* `eval_eq_error_iff`     — a tree fails exactly as some part that it reaches.
* `WellNamed.error_iff`   — a well-named tree fails exactly as a call that it reaches.
* `WellNamed.evaluates`   — without calls of `outcome` and `matches` it does not fail.
-/

namespace Conveyor
namespace Condition

/-! ## Functions -/

theorem Expr.eval_not_eq_error_iff {ctx : Context} {e : Expr} {err : EvalError} :
    (Expr.not e).eval ctx = .error err ↔ e.eval ctx = .error err := by
  rw [eval]
  cases e.eval ctx <;> simp

namespace Function

theorem ofName?_eq_outcome_iff {name : String} :
    ofName? name = some .outcome ↔ name = "outcome" := by
  unfold ofName?
  split <;> simp_all

theorem ofName?_eq_globMatch_iff {name : String} :
    ofName? name = some .globMatch ↔ name = "matches" := by
  unfold ofName?
  split <;> simp_all

theorem apply_eq_error_iff {ctx : Context} {name : String} {f : Function} {values : List Value}
    {err : EvalError} (h : values.length = f.arity) :
    f.apply ctx name values = .error err ↔
      (∃ v, f = .outcome ∧ values = [v] ∧ ctx.dependencies.lookup v.text = none ∧
        err = .notADependency v.text) ∨
      ∃ v w flaw, f = .globMatch ∧ values = [v, w] ∧ Glob.compile w.text = .error flaw ∧
        err = .badPattern w.text flaw := by
  cases f with
  | always | success | failure | skipped =>
    obtain rfl := List.eq_nil_of_length_eq_zero h
    simp [apply]
  | outcome =>
    obtain ⟨v, rfl⟩ := List.length_eq_one_iff.1 h
    cases hfound : ctx.dependencies.lookup v.text <;> simp [apply, hfound, eq_comm]
  | globMatch =>
    obtain ⟨v, w, rfl⟩ := List.length_eq_two.1 h
    cases hglob : Glob.compile w.text <;> simp [apply, hglob, eq_comm]
  | contains | startsWith | endsWith =>
    obtain ⟨v, w, rfl⟩ := List.length_eq_two.1 h
    simp [apply]

end Function

namespace Expr

variable {ctx : Context} {P : Expr → Prop} {a b e x : Expr} {args : List Expr} {name : String}
  {f : Function} {v w : Value} {err : EvalError}

/-! ## Where a tree fails -/

/-- Evaluation of the first tree comes to the second one, which is a part of it. -/
inductive Reaches (ctx : Context) : Expr → Expr → Prop where
  | here {e : Expr} : Reaches ctx e e
  | not {e x : Expr} : Reaches ctx e x → Reaches ctx (.not e) x
  | andLeft {a b x : Expr} : Reaches ctx a x → Reaches ctx (.and a b) x
  | andRight {a b x : Expr} {v : Value} :
      a.eval ctx = .ok v → v.truthy = true → Reaches ctx b x → Reaches ctx (.and a b) x
  | orLeft {a b x : Expr} : Reaches ctx a x → Reaches ctx (.or a b) x
  | orRight {a b x : Expr} {v : Value} :
      a.eval ctx = .ok v → v.truthy = false → Reaches ctx b x → Reaches ctx (.or a b) x
  | eqLeft {a b x : Expr} : Reaches ctx a x → Reaches ctx (.eq a b) x
  | eqRight {a b x : Expr} {v : Value} :
      a.eval ctx = .ok v → Reaches ctx b x → Reaches ctx (.eq a b) x
  | neLeft {a b x : Expr} : Reaches ctx a x → Reaches ctx (.ne a b) x
  | neRight {a b x : Expr} {v : Value} :
      a.eval ctx = .ok v → Reaches ctx b x → Reaches ctx (.ne a b) x
  /-- An argument of a call that fits, after the arguments before it. -/
  | arg {name : String} {f : Function} {before after : List Expr} {e x : Expr}
      {values : List Value} :
      Function.ofName? name = some f → (before ++ e :: after).length = f.arity →
      evalAll ctx before = .ok values → Reaches ctx e x →
      Reaches ctx (.call name (before ++ e :: after)) x

/-- A fact or a call that has no meaning in any context. -/
inductive Misnamed : Expr → EvalError → Prop where
  | fact {name : String} :
      Fact.ofName? name = none → Misnamed (.fact name) (.unknownIdentifier name)
  | function {name : String} {args : List Expr} :
      Function.ofName? name = none → Misnamed (.call name args) (.unknownFunction name)
  | arity {name : String} {f : Function} {args : List Expr} :
      Function.ofName? name = some f → args.length ≠ f.arity →
      Misnamed (.call name args) (.arity name f.arity args.length)

/-- A call whose arguments have values, and fails by them: `outcome` of what is not the name of a
direct dependency, or `matches` with a pattern that is no glob. -/
inductive Breaks (ctx : Context) : Expr → EvalError → Prop where
  | outcome {e : Expr} {v : Value} :
      e.eval ctx = .ok v → (∀ d ∈ ctx.dependencies, d.1 ≠ v.text) →
      Breaks ctx (.call "outcome" [e]) (.notADependency v.text)
  | globMatch {a b : Expr} {v w : Value} {flaw : Glob.Flaw} :
      a.eval ctx = .ok v → b.eval ctx = .ok w → Glob.compile w.text = .error flaw →
      Breaks ctx (.call "matches" [a, b]) (.badPattern w.text flaw)

/-! ### Errors of operands -/

theorem eval_and_eq_error_iff : (Expr.and a b).eval ctx = .error err ↔
    a.eval ctx = .error err ∨
      ∃ v, a.eval ctx = .ok v ∧ v.truthy = true ∧ b.eval ctx = .error err := by
  rw [eval]
  cases a.eval ctx with
  | error => simp
  | ok v => cases hv : v.truthy <;> cases b.eval ctx <;> simp [hv]

theorem eval_or_eq_error_iff : (Expr.or a b).eval ctx = .error err ↔
    a.eval ctx = .error err ∨
      ∃ v, a.eval ctx = .ok v ∧ v.truthy = false ∧ b.eval ctx = .error err := by
  rw [eval]
  cases a.eval ctx with
  | error => simp
  | ok v => cases hv : v.truthy <;> cases b.eval ctx <;> simp [hv]

theorem eval_eq_eq_error_iff : (Expr.eq a b).eval ctx = .error err ↔
    a.eval ctx = .error err ∨ ∃ v, a.eval ctx = .ok v ∧ b.eval ctx = .error err := by
  rw [eval]
  cases a.eval ctx <;> cases b.eval ctx <;> simp

theorem eval_ne_eq_error_iff : (Expr.ne a b).eval ctx = .error err ↔
    a.eval ctx = .error err ∨ ∃ v, a.eval ctx = .ok v ∧ b.eval ctx = .error err := by
  rw [eval]
  cases a.eval ctx <;> cases b.eval ctx <;> simp

theorem evalAll_cons_eq_error_iff : evalAll ctx (e :: args) = .error err ↔
    e.eval ctx = .error err ∨ ∃ v, e.eval ctx = .ok v ∧ evalAll ctx args = .error err := by
  rw [evalAll]
  cases e.eval ctx <;> cases evalAll ctx args <;> simp

theorem evalAll_eq_ok_iff : ∀ {args : List Expr} {values : List Value},
    evalAll ctx args = .ok values ↔ List.Forall₂ (fun e v => e.eval ctx = .ok v) args values
  | [], values => by rw [evalAll, List.forall₂_nil_left_iff, Except.ok.injEq, eq_comm]
  | e :: args, values => by
    rw [evalAll, List.forall₂_cons_left_iff]
    simp only [← evalAll_eq_ok_iff]
    cases e.eval ctx <;> cases evalAll ctx args <;> simp [eq_comm]

theorem evalAll_at {before after : List Expr} {values : List Value}
    (hbefore : evalAll ctx before = .ok values) (he : e.eval ctx = .error err) :
    evalAll ctx (before ++ e :: after) = .error err := by
  rw [evalAll_eq_ok_iff] at hbefore
  induction hbefore with
  | nil => exact evalAll_cons_eq_error_iff.2 (.inl he)
  | cons hv _ ih => exact evalAll_cons_eq_error_iff.2 (.inr ⟨_, hv, ih⟩)

theorem Misnamed.eval (h : Misnamed x err) : x.eval ctx = .error err := by
  cases h with
  | fact h | function h => simp [Expr.eval, h]
  | arity h hargs => simp [Expr.eval, h, hargs]

theorem lookup_eq_none_iff {s : String} :
    ctx.dependencies.lookup s = none ↔ ∀ d ∈ ctx.dependencies, d.1 ≠ s := by
  rw [List.lookup_eq_none_iff]
  exact forall₂_congr fun d _ => by rw [bne_iff_ne, ne_comm]

theorem eval_call {values : List Value} (hname : Function.ofName? name = some f)
    (hargs : args.length = f.arity)
    (hvalues : List.Forall₂ (fun e v => e.eval ctx = .ok v) args values) :
    (Expr.call name args).eval ctx = f.apply ctx name values := by
  rw [Expr.eval, hname]
  simp only [if_pos hargs, evalAll_eq_ok_iff.2 hvalues]

theorem Breaks.eval (h : Breaks ctx x err) : x.eval ctx = .error err := by
  cases h with
  | outcome hv hnone =>
    rw [eval_call (f := .outcome) rfl rfl (.cons hv .nil), Function.apply_eq_error_iff rfl]
    exact .inl ⟨_, rfl, rfl, lookup_eq_none_iff.2 hnone, rfl⟩
  | globMatch hv hw hflaw =>
    rw [eval_call (f := .globMatch) rfl rfl (.cons hv (.cons hw .nil)),
      Function.apply_eq_error_iff rfl]
    exact .inr ⟨_, _, _, rfl, rfl, hflaw, rfl⟩

theorem breaks_of_apply {values : List Value} (hname : Function.ofName? name = some f)
    (hargs : args.length = f.arity)
    (hvalues : List.Forall₂ (fun e v => e.eval ctx = .ok v) args values)
    (h : f.apply ctx name values = .error err) : Breaks ctx (.call name args) err := by
  have hlength : values.length = f.arity := hvalues.length_eq.symm.trans hargs
  rcases (Function.apply_eq_error_iff hlength).1 h with
    ⟨v, rfl, rfl, hnone, rfl⟩ | ⟨v, w, flaw, rfl, rfl, hflaw, rfl⟩
  · obtain rfl := Function.ofName?_eq_outcome_iff.1 hname
    obtain ⟨e, _, hv, hnil, rfl⟩ := List.forall₂_cons_right_iff.1 hvalues
    obtain rfl := List.forall₂_nil_right_iff.1 hnil
    exact .outcome hv (lookup_eq_none_iff.1 hnone)
  · obtain rfl := Function.ofName?_eq_globMatch_iff.1 hname
    obtain ⟨a, _, hv, hrest, rfl⟩ := List.forall₂_cons_right_iff.1 hvalues
    obtain ⟨b, _, hw, hnil, rfl⟩ := List.forall₂_cons_right_iff.1 hrest
    obtain rfl := List.forall₂_nil_right_iff.1 hnil
    exact .globMatch hv hw hflaw

/-- A call fails by its name or the number of its arguments, by an argument, or by their values. -/
theorem call_error_cases (h : (Expr.call name args).eval ctx = .error err) :
    Misnamed (.call name args) err ∨ Breaks ctx (.call name args) err ∨
      ∃ f, Function.ofName? name = some f ∧ args.length = f.arity ∧
        evalAll ctx args = .error err := by
  rw [Expr.eval] at h
  split at h
  · rename_i hname
    cases h
    exact .inl (.function hname)
  · rename_i f hname
    split at h
    · rename_i hargs
      split at h
      · rename_i hall
        cases h
        exact .inr (.inr ⟨f, hname, hargs, hall⟩)
      · rename_i values hall
        exact .inr (.inl (breaks_of_apply hname hargs (evalAll_eq_ok_iff.1 hall) h))
    · rename_i hargs
      cases h
      exact .inl (.arity hname hargs)

/-! ### The part that fails -/

theorem Reaches.eval (h : Reaches ctx e x) (hx : x.eval ctx = .error err) :
    e.eval ctx = .error err := by
  induction h with
  | here => exact hx
  | not _ ih => exact eval_not_eq_error_iff.2 (ih hx)
  | andLeft _ ih => exact eval_and_eq_error_iff.2 (.inl (ih hx))
  | andRight hv htrue _ ih => exact eval_and_eq_error_iff.2 (.inr ⟨_, hv, htrue, ih hx⟩)
  | orLeft _ ih => exact eval_or_eq_error_iff.2 (.inl (ih hx))
  | orRight hv hfalse _ ih => exact eval_or_eq_error_iff.2 (.inr ⟨_, hv, hfalse, ih hx⟩)
  | eqLeft _ ih => exact eval_eq_eq_error_iff.2 (.inl (ih hx))
  | eqRight hv _ ih => exact eval_eq_eq_error_iff.2 (.inr ⟨_, hv, ih hx⟩)
  | neLeft _ ih => exact eval_ne_eq_error_iff.2 (.inl (ih hx))
  | neRight hv _ ih => exact eval_ne_eq_error_iff.2 (.inr ⟨_, hv, ih hx⟩)
  | arg hname hargs hbefore _ ih =>
    rw [Expr.eval, hname]
    simp only [if_pos hargs, evalAll_at hbefore (ih hx)]

/-- The tree comes to a part that fails with this error. -/
def FailsWithin (ctx : Context) (e : Expr) (err : EvalError) : Prop :=
  ∃ x, Reaches ctx e x ∧ (Misnamed x err ∨ Breaks ctx x err)

theorem FailsWithin.of_reaches {e' : Expr} (h : FailsWithin ctx e' err)
    (hreaches : ∀ {x}, Reaches ctx e' x → Reaches ctx e x) : FailsWithin ctx e err :=
  h.imp fun _ => And.imp_left hreaches

mutual

theorem failsWithin_of_eval : ∀ {e : Expr}, e.eval ctx = .error err → FailsWithin ctx e err
  | .bool _, h | .str _, h => by simp [Expr.eval] at h
  | .fact name, h => by
    rw [Expr.eval] at h
    split at h
    · cases h
    · rename_i hname
      cases h
      exact ⟨_, .here, .inl (.fact hname)⟩
  | .not _, h => (failsWithin_of_eval (eval_not_eq_error_iff.1 h)).of_reaches .not
  | .and a b, h => by
    rcases eval_and_eq_error_iff.1 h with h | ⟨v, hv, htrue, h⟩
    · exact (failsWithin_of_eval h).of_reaches .andLeft
    · exact (failsWithin_of_eval h).of_reaches (.andRight hv htrue)
  | .or a b, h => by
    rcases eval_or_eq_error_iff.1 h with h | ⟨v, hv, hfalse, h⟩
    · exact (failsWithin_of_eval h).of_reaches .orLeft
    · exact (failsWithin_of_eval h).of_reaches (.orRight hv hfalse)
  | .eq a b, h => by
    rcases eval_eq_eq_error_iff.1 h with h | ⟨v, hv, h⟩
    · exact (failsWithin_of_eval h).of_reaches .eqLeft
    · exact (failsWithin_of_eval h).of_reaches (.eqRight hv)
  | .ne a b, h => by
    rcases eval_ne_eq_error_iff.1 h with h | ⟨v, hv, h⟩
    · exact (failsWithin_of_eval h).of_reaches .neLeft
    · exact (failsWithin_of_eval h).of_reaches (.neRight hv)
  | .call name args, h => by
    rcases call_error_cases h with hnamed | hbreaks | ⟨f, hname, hargs, hall⟩
    · exact ⟨_, .here, .inl hnamed⟩
    · exact ⟨_, .here, .inr hbreaks⟩
    · obtain ⟨before, e, after, values, rfl, hbefore, hfails⟩ := failsWithin_of_evalAll hall
      exact hfails.of_reaches (.arg hname hargs hbefore)

theorem failsWithin_of_evalAll : ∀ {args : List Expr}, evalAll ctx args = .error err →
    ∃ before e after values, args = before ++ e :: after ∧ evalAll ctx before = .ok values ∧
      FailsWithin ctx e err
  | [], h => by simp [evalAll] at h
  | e :: rest, h => by
    rcases evalAll_cons_eq_error_iff.1 h with h | ⟨v, hv, h⟩
    · exact ⟨[], e, rest, [], rfl, by rw [evalAll], failsWithin_of_eval h⟩
    · obtain ⟨before, x, after, values, rfl, hbefore, hfails⟩ := failsWithin_of_evalAll h
      exact ⟨e :: before, x, after, v :: values, rfl,
        evalAll_eq_ok_iff.2 (.cons hv (evalAll_eq_ok_iff.1 hbefore)), hfails⟩

end

theorem eval_eq_error_iff : e.eval ctx = .error err ↔ FailsWithin ctx e err := by
  refine ⟨failsWithin_of_eval, ?_⟩
  rintro ⟨x, hreaches, hnamed | hbreaks⟩
  · exact hreaches.eval hnamed.eval
  · exact hreaches.eval hbreaks.eval

/-! ## Well-named trees -/

theorem Everywhere.of_reaches (h : e.Everywhere P) (hreaches : Reaches ctx e x) :
    x.Everywhere P := by
  induction hreaches with
  | here => exact h
  | not _ ih => exact ih h.2
  | andLeft _ ih | orLeft _ ih | eqLeft _ ih | neLeft _ ih => exact ih h.2.1
  | andRight _ _ _ ih | orRight _ _ _ ih | eqRight _ _ ih | neRight _ _ ih => exact ih h.2.2
  | arg _ _ _ _ ih =>
    exact ih (everywhereIn_iff.1 h.2 _ (List.mem_append_right _ List.mem_cons_self))

theorem NameFits.not_misnamed (h : NameFits x) : ¬ Misnamed x err := by
  intro hnamed
  cases hnamed with
  | fact hnone =>
    obtain ⟨f, hf⟩ := ofName?_isSome_iff.2 h
    rw [hf] at hnone
    cases hnone
  | function hnone =>
    obtain ⟨f, hf, _⟩ := h
    rw [hf] at hnone
    cases hnone
  | arity hsome hargs =>
    obtain ⟨f, hf, hfits⟩ := h
    obtain rfl := Option.some.inj (hf.symm.trans hsome)
    exact hargs hfits

/-- A well-named tree fails exactly as a call that it reaches and that no check can foresee to
fail. -/
theorem WellNamed.error_iff (h : e.WellNamed) :
    e.eval ctx = .error err ↔ ∃ call, Reaches ctx e call ∧ Breaks ctx call err := by
  rw [eval_eq_error_iff]
  constructor
  · rintro ⟨x, hreaches, hnamed | hbreaks⟩
    · exact absurd hnamed (h.of_reaches hreaches).self.not_misnamed
    · exact ⟨x, hreaches, hbreaks⟩
  · rintro ⟨x, hreaches, hbreaks⟩
    exact ⟨x, hreaches, .inr hbreaks⟩

/-- The tree is not a call whose arguments can be wrong. -/
def Settled : Expr → Prop
  | .call name _ => name ≠ "outcome" ∧ name ≠ "matches"
  | _ => True

theorem Settled.not_breaks (h : Settled x) : ¬ Breaks ctx x err := by
  intro hbreaks
  cases hbreaks with
  | outcome => exact h.1 rfl
  | globMatch => exact h.2 rfl

theorem evaluate_eq_error_iff : e.evaluate ctx = .error err ↔ e.eval ctx = .error err := by
  rw [evaluate]
  cases e.eval ctx <;> simp

/-- A well-named tree without calls of `outcome` and `matches` has a value in every context. -/
theorem WellNamed.evaluates (h : e.WellNamed) (hsettled : e.Everywhere Settled) (ctx : Context) :
    ∃ b, e.evaluate ctx = .ok b := by
  cases heval : e.evaluate ctx with
  | ok b => exact ⟨b, rfl⟩
  | error err =>
    obtain ⟨call, hreaches, hbreaks⟩ := h.error_iff.1 (evaluate_eq_error_iff.1 heval)
    exact absurd hbreaks (hsettled.of_reaches hreaches).self.not_breaks

end Expr
end Condition
end Conveyor
