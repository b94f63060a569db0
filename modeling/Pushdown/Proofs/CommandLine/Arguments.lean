/-
  Pushdown.Proofs.CommandLine.Arguments — behind `--` every argument is an input.

  Arguments that ask for a session ask for the same one with inputs behind them, whatever
  these look like (`passesInputs_ofArguments`).
-/

import Pushdown.CommandLine.Arguments
import Pushdown.Proofs.CommandLine

namespace Pushdown

namespace CommandLine

variable {d : Draft} {o : Options} {arguments inputs : List String}

theorem withInputs_cons {argument : String} (h : argument ≠ "--") (rest inputs : List String) :
    withInputs (argument :: rest) inputs = argument :: withInputs rest inputs := by
  simp [withInputs, Ne.symm h]

theorem shape_stopOptions {argument : String} : shape argument = .stopOptions ↔ argument = "--" := by
  refine ⟨?_, ?_⟩
  · intro h
    unfold shape at h
    split at h
    · next hlist => exact String.toList_inj.mp hlist
    · cases h
    · repeat' split at h
      all_goals cases h
    · cases h
  · rintro rfl
    rfl

namespace Draft

theorem addAllPlain?_append (first second : List String) :
    d.addAllPlain? (first ++ second) = (d.addAllPlain? first).bind fun next => next.addAllPlain? second := by
  induction first generalizing d with
  | nil => rfl
  | cons argument rest ih =>
    rw [List.cons_append, addAllPlain?, addAllPlain?, Option.bind_assoc]
    exact congrArg _ (funext fun next => ih)

theorem addAllPlain?_of_plain (h : d.plain ≠ []) (inputs : List String) :
    d.addAllPlain? inputs = some { d with plain := inputs.reverse ++ d.plain } := by
  induction inputs generalizing d with
  | nil => rfl
  | cons input rest ih =>
    have hadd : d.addPlain? input = some { d with plain := input :: d.plain } := by
      simp [addPlain?, h]
    rw [addAllPlain?, hadd, Option.bind_some, ih (List.cons_ne_nil _ _)]
    simp

/-- A draft that asks for a session asks for the same one with more inputs. -/
theorem invocation_addAllPlain? (h : d.invocation = .run o) (inputs : List String) :
    orMisuse (d.addAllPlain? inputs) invocation = .run (o.on (o.inputs ++ inputs)) := by
  cases hplain : d.plain.reverse with
  | nil =>
    rw [invocation, hplain] at h
    cases h
  | cons definition before =>
    rw [invocation, hplain] at h
    cases h
    have hne : d.plain ≠ [] := by
      intro hnil
      rw [hnil] at hplain
      cases hplain
    rw [addAllPlain?_of_plain hne, orMisuse, invocation, List.reverse_append, List.reverse_reverse, hplain]
    rfl

theorem setMaxSteps?_stop : d.setMaxSteps? "--" = none := by
  have hcount : readCount? "--" = none := by decide
  simp [setMaxSteps?, hcount]

end Draft

theorem orMisuse_bind (draft : Option Draft) (more : Draft → Option Draft) (next : Draft → Invocation) :
    orMisuse (draft.bind more) next = orMisuse draft fun d => orMisuse (more d) next := by
  cases draft <;> rfl

/-- What comes of a draft goes on as what comes of what follows it. -/
theorem orMisuse_imp {draft : Option Draft} {next next' : Draft → Invocation} {i i' : Invocation}
    (h : orMisuse draft next = i) (hi : i ≠ .misuse) (hnext : ∀ d, next d = i → next' d = i') :
    orMisuse draft next' = i' := by
  cases draft with
  | none => exact absurd h.symm hi
  | some d => exact hnext d h

/-- Reading goes on behind the arguments where it stood at their end, the options closed. -/
theorem readArguments_withInputs (h : readArguments d arguments = .run o) (inputs : List String) :
    readArguments d (withInputs arguments inputs) = .run (o.on (o.inputs ++ inputs)) := by
  have hne : Invocation.run o ≠ .misuse := by simp
  have hoption : ∀ {argument : String}, shape argument ≠ .stopOptions → argument ≠ "--" :=
    fun hshape => mt shape_stopOptions.mpr hshape
  fun_induction readArguments d arguments with
  | case1 d => exact Draft.invocation_addAllPlain? h inputs
  | case2 d argument rest hshape ih =>
    rw [withInputs_cons (hoption (by simp [hshape])), readArguments.eq_def]
    simp only [hshape]
    exact orMisuse_imp h hne ih
  | case3 d argument rest hshape =>
    rw [withInputs, if_pos (shape_stopOptions.mp hshape ▸ List.mem_cons_self), List.cons_append, readArguments.eq_def]
    simp only [hshape]
    rw [Draft.addAllPlain?_append, orMisuse_bind]
    exact orMisuse_imp h hne fun next hnext => Draft.invocation_addAllPlain? hnext inputs
  | case4 => cases h
  | case5 d argument rest value hshape ih =>
    rw [withInputs_cons (hoption (by simp [hshape])), readArguments.eq_def]
    simp only [hshape]
    exact orMisuse_imp h hne ih
  | case6 => cases h
  | case7 d argument hshape value after ih =>
    have hvalue : value ≠ "--" := by
      rintro rfl
      rw [Draft.setMaxSteps?_stop] at h
      cases h
    rw [withInputs_cons (hoption (by simp [hshape])), withInputs_cons hvalue, readArguments.eq_def]
    simp only [hshape]
    exact orMisuse_imp h hne ih
  | case8 d argument rest hshape ih =>
    rw [withInputs_cons (hoption (by simp [hshape])), readArguments.eq_def]
    simp only [hshape]
    exact orMisuse_imp h hne ih

end CommandLine

/-- With inputs behind `--` the same session is asked for, on these inputs. -/
theorem passesInputs_ofArguments : CommandLine.PassesInputs Invocation.ofArguments :=
  fun _ _ h inputs => CommandLine.readArguments_withInputs h inputs

end Pushdown
