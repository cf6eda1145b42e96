import TreeLang.Proofs.Typing.Recording
import TreeLang.Proofs.Unification.Soundness

/-!
# Soundness of checking

When unification of the constraints of a program ends well and binds no variable to a term that
contains it, the program is well typed at every node that inference walks. What inference records
becomes what the solution makes of it.
-/

namespace TreeLang

open Term

/-- The terms of expressions have no generic parameters. -/
theorem Program.infer_instantiated (program : Program) (scope : Scope) {id : NodeId} {term : Term}
    (hid : (program.infer scope).typing.expression id = some term) : term.Instantiated := by
  have hwalk : (program.walk Generator.visit { scope }).Instantiated := by
    rw [program.walk_eq_tour Generator.visit_neverStops]
    exact (program.outline_faithful.extends_tour { scope }).instantiated nofun
  exact hwalk id term hid

namespace Checked

variable {checked : Checked} {s : Substitution}

/-- With a solution, the final term is what the solution makes of the inferred one. -/
theorem solved_eq (hsolution : checked.solution = .solved s) (term : Term) :
    checked.solved term = some (s.apply term) := by
  rw [solved, hsolution]
  rfl

/-- With a solution that makes the two sides of every constraint agree, the typing of inference
becomes that of checking. -/
theorem typing_becomes (hsolution : checked.solution = .solved s) (hs : s.Keyed)
    (hagrees : ∀ c ∈ checked.inference.constraints, Agrees (s.apply c.head) (s.apply c.tail)) :
    checked.inference.typing.Becomes (fun x => s.apply (evar x)) checked.typing where
  expression id := by
    change (checked.inference.nodeTerms.find id).bind checked.solved = _
    rw [Inference.typing, Option.map_eq_bind]
    congr 1
    funext term
    rw [solved_eq hsolution, hs.apply_eq_assign, Function.comp_apply]
  pattern id := by
    change (checked.inference.patternTerms.find id).bind checked.solved = _
    rw [Inference.typing, Option.map_eq_bind]
    congr 1
    funext term
    rw [solved_eq hsolution, hs.apply_eq_assign, Function.comp_apply]
  matches_of a b h := by
    rw [← hs.apply_eq_assign, ← hs.apply_eq_assign]
    exact hagrees ⟨a, b⟩ h

end Checked

/-- **Checking is sound.** When the constraints of a program with distinct ids have a solution that
binds no variable to a term that contains it, every node that is walked has what it asks of a
typing, and every condition with a type is a truth value. -/
theorem Program.check_sound {program : Program} {steps : Nat} {s : Substitution}
    (distinct : (program.nodes.map Node.id).Nodup)
    (solved : (program.check steps).solution = .solved s) (selfFree : s.SelfFree) :
    (∀ site ∈ program.sites, (program.check steps).typing.HoldsAt site) ∧
      ∀ function id condition block term,
        ⟨function, .statement (.branch id condition block)⟩ ∈ program.sites →
        (program.check steps).typeOf condition.id = some term → term = .boolean := by
  have hreaches : Work.Reaches (Work.start (program.check steps).inference.constraints) ⟨s, []⟩ :=
    Work.reaches_of_run_eq_solved solved
  obtain ⟨htriangular, hagrees⟩ :=
    Work.Reaches.triangular_and_agreesUnder hreaches (Work.ready_start _) selfFree
  have hproper : s.Proper := Work.Reaches.proper hreaches Substitution.proper_empty
  have hbecomes := Checked.typing_becomes solved htriangular.keyed hagrees
  have hholds : ∀ site ∈ program.sites, (program.check steps).typing.HoldsAt site := by
    intro site hsite
    exact hbecomes.holdsAt (program.infer_holdsAt _ distinct site hsite)
  refine ⟨hholds, fun function id condition block term hsite hterm => ?_⟩
  obtain ⟨before, hbefore, rfl⟩ := hbecomes.exists_of_expression_eq hterm
  rcases (hholds _ hsite _ hterm : Agrees _ boolean).eq_named with heq | ⟨name, heq⟩
  · exact heq
  · -- the type of an expression is no generic parameter
    have hbefore := (program.infer_instantiated _ hbefore).ne_gen
    rw [← htriangular.keyed.apply_eq_assign] at heq
    exact absurd heq (hproper.apply_ne_gen hbefore name)

/-- `func same(x: String = "a") -> Boolean { if x == "b" { return true }; return x == "c" }`, then
`let words: Array<String> = ["d"]` and `for word in words { same(word) }`. -/
def wordsProgram : Program where
  id := .ofNat 0
  block := [
    .declaration (.ofNat 1) (.function (.ofNat 2) ⟨.ofNat 3, "same"⟩
      (.named (.ofNat 4) ⟨.ofNat 5, "Boolean", false⟩ []) []
      [.parameter (.ofNat 6) none ⟨.ofNat 7, "x"⟩ (.named (.ofNat 8) ⟨.ofNat 9, "String", false⟩ [])
        (some (.literal (.ofNat 10) (.string (.ofNat 11) "a")))]
      [.branch (.ofNat 12) (.binary (.ofNat 13) (.identifier (.ofNat 14) ⟨.ofNat 15, "x", false⟩)
          (.literal (.ofNat 16) (.string (.ofNat 17) "b")) .isEqualTo)
          [.result (.ofNat 18) (.literal (.ofNat 19) (.boolean (.ofNat 20) true))],
        .result (.ofNat 21) (.binary (.ofNat 22) (.identifier (.ofNat 23) ⟨.ofNat 24, "x", false⟩)
          (.literal (.ofNat 25) (.string (.ofNat 26) "c")) .isEqualTo)]),
    .declaration (.ofNat 27) (.value (.ofNat 28) ⟨.ofNat 29, "words"⟩
      (some (.named (.ofNat 30) ⟨.ofNat 31, "Array", false⟩
        [.named (.ofNat 32) ⟨.ofNat 33, "String", false⟩ []]))
      (some (.literal (.ofNat 34) (.array (.ofNat 35)
        [.literal (.ofNat 36) (.string (.ofNat 37) "d")])))),
    .loop (.ofNat 38) ⟨.ofNat 39, "word"⟩ (.identifier (.ofNat 40) ⟨.ofNat 41, "words", false⟩)
      [.expression (.ofNat 42) (.call (.ofNat 43)
        (.identifier (.ofNat 44) ⟨.ofNat 45, "same", false⟩)
        [.argument (.ofNat 46) none (.identifier (.ofNat 47) ⟨.ofNat 48, "word", false⟩)])]]

/-- What runs through the words is a string, so it may be passed to `same`, and the condition in
`same` is a truth value. -/
theorem check_sound_words :
    ∃ s, (wordsProgram.check 40).solution = .solved s ∧ s.SelfFree ∧
      (∀ site ∈ wordsProgram.sites, (wordsProgram.check 40).typing.HoldsAt site) ∧
      (wordsProgram.check 40).patternType (.ofNat 39) = some string ∧
      (wordsProgram.check 40).typeOf (.ofNat 13) = some boolean := by
  have hdistinct : (wordsProgram.nodes.map Node.id).Nodup := by decide
  have hsolved : (wordsProgram.check 40).solution =
      .solved ⟨[(evar "1", string), (evar "2", string)]⟩ := by decide +kernel
  have hself : Substitution.SelfFree ⟨[(evar "1", string), (evar "2", string)]⟩ := by
    intro x t hmem
    simp only [List.mem_cons, Prod.mk.injEq, evar.injEq, List.not_mem_nil, or_false] at hmem
    rcases hmem with ⟨rfl, rfl⟩ | ⟨rfl, rfl⟩ <;> decide
  obtain ⟨hsites, -⟩ := Program.check_sound hdistinct hsolved hself
  exact ⟨_, hsolved, hself, hsites, by decide +kernel, by decide +kernel⟩

end TreeLang
