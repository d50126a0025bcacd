import Guardedness.CommandLine.Options
import Mathlib.Data.List.TakeDrop

/-!
# Arguments that give a term

A library reads the arguments. All that matters of it is that arguments that ask for a check and
give no term can be followed by any way to give one (`TakesTerms`), as with `request`, which reads
one argument after the other (`requestFrom_append`).
-/

namespace Guardedness

namespace CommandLine

variable {args form : List String} {o o' o₁ o₂ : Options} {text arg value : String} {v : Valued}

/-- The ways to give the term `text` by arguments. -/
inductive Gives (text : String) : List String → Prop
  | short (h : looksLikeOption text = false) : Gives text ["-p", text]
  | long (h : looksLikeOption text = false) : Gives text ["--process", text]
  | shortJoined : Gives text ["-p=" ++ text]
  | longJoined : Gives text ["--process=" ++ text]

/-- Behind arguments that ask for a check and give no term, each way to give a term gives it, unless
they end with a bare `--`. -/
structure TakesTerms (request : List String → Request) : Prop where
  append : ∀ args o text form, request args = .check o → o.process = none →
    args.getLast? ≠ some "--" → Gives text form →
    request (args ++ form) = .check { o with process := some text }

theorem readArgument_hyphens (o : Options) : readArgument o "--" = .settled .refused := rfl

theorem requestFrom_more (h : readArgument o arg = .more o₁) :
    requestFrom o (arg :: args) = requestFrom o₁ args := by
  refine requestFrom.eq_3 _ _ _ _ h ?_
  rintro rfl -
  simp [readArgument_hyphens] at h

theorem requestFrom_value (h : readArgument o arg = .value v o₁)
    (hvalue : looksLikeOption value = false) (hset : o₁.set? v value = some o₂) :
    requestFrom o (arg :: value :: args) = requestFrom o₂ args := by
  rw [requestFrom.eq_def]
  split
  · contradiction
  · simp_all
  · next heq =>
    obtain ⟨rfl, rfl⟩ := List.cons.inj heq
    simp [h, hvalue, hset]

/-- A single argument does not settle that a term is checked. -/
theorem readArgument_ne_check (o : Options) (arg : String) :
    readArgument o arg ≠ .settled (.check o') := by
  have ofOptions (o : Option Options) : Reading.ofOptions? o ≠ .settled (.check o') := by
    cases o <;> simp [Reading.ofOptions?]
  have short (o : Options) (cs : List Char) : readShort o cs ≠ .settled (.check o') := by
    fun_induction readShort o cs <;> simp_all
  have long (name : String) (value : Option String) :
      readLong o name value ≠ .settled (.check o') := by
    unfold readLong
    split <;> simp_all
  unfold readArgument
  split
  · exact long _ _
  · exact short _ _
  · simp

/-- Arguments that ask for a check can be followed by others, unless they end with a bare `--`. -/
theorem requestFrom_append (h : requestFrom o args = .check o')
    (hend : args.getLast? ≠ some "--") (more : List String) :
    requestFrom o (args ++ more) = requestFrom o' more := by
  have last {arg : String} {args : List String} (h : (arg :: args).getLast? ≠ some "--") :
      args.getLast? ≠ some "--" := by
    intro hlast
    simp [List.getLast?_cons, hlast] at h
  fun_induction requestFrom o args with
  | case1 o =>
    cases h
    rfl
  | case2 o => simp at hend
  | case3 o arg o₁ args hread _ ih =>
    rw [List.cons_append, requestFrom_more hread]
    exact ih h (last hend)
  | case4 o arg args _ r hread =>
    subst h
    exact absurd hread (readArgument_ne_check o arg)
  | case6 o arg v o₁ value args hread hvalue o₂ hset _ ih =>
    rw [List.cons_append, List.cons_append,
      requestFrom_value hread (Bool.eq_false_iff.mpr hvalue) hset]
    exact ih h (last (last hend))
  | case5 | case7 | case8 => cases h

theorem requestFrom_gives (h : Gives text form) (ho : o.process = none) :
    requestFrom o form = .check { o with process := some text } := by
  have set : o.set? .process text = some { o with process := some text } := by
    simp [Options.set?, ho]
  cases h with
  | short h =>
    have read : readArgument o "-p" = .value .process o := rfl
    exact requestFrom_value read h set
  | long h =>
    have read : readArgument o "--process" = .value .process o := rfl
    exact requestFrom_value read h set
  | shortJoined =>
    have read : readArgument o ("-p=" ++ text) = .more { o with process := some text } := by
      simp [readArgument, readShort, Opt.ofShort?, set, Reading.ofOptions?]
    rw [requestFrom_more read, requestFrom]
  | longJoined =>
    have read : readArgument o ("--process=" ++ text) = .more { o with process := some text } := by
      simp [readArgument, readLong, Opt.ofLong?, set, Reading.ofOptions?,
        List.span_eq_takeWhile_dropWhile]
    rw [requestFrom_more read, requestFrom]

theorem request_takesTerms : TakesTerms request where
  append args o text form hargs hprocess hend hform := by
    rw [request, requestFrom_append hargs hend, requestFrom_gives hform hprocess]

end CommandLine

end Guardedness
