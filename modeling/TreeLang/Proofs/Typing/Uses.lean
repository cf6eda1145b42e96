import TreeLang.Proofs.Typing.Lockstep
import TreeLang.Proofs.Typing.Naming

/-!
# Inference knows what name resolution knows

The term of a use is the final term of what the name refers to, with new variables for its generic
parameters, or one new variable when that has no term or the name is not resolved. So no use misses
a term because it came too early.
-/

namespace TreeLang

open Generator (visit)
open Outline (tourAll entered between)

/-! ## The visits of inference -/

/-- What inference is handed on its walk of a program, in order. -/
def Program.inferenceVisits (program : Program) (scope : Scope) :
    List (Node × Control × Generator) :=
  (program.outline.walk .pre visit.logged ({ scope }, [])).2.2

/-- Whether the expression is an identifier or a member of something. -/
def Expression.isUse : Expression → Bool
  | .identifier _ _ | .member _ _ _ => true
  | .binary _ _ _ _ | .call _ _ _ | .literal _ _ | .placeholder _ => false

/-- Inference visits a use in a state. -/
structure Program.VisitsUse (program : Program) (scope : Scope) (e : Expression) (g : Generator) :
    Prop where
  isUse : e.isUse
  mem : ∃ control, (.expression e, control, g) ∈ program.inferenceVisits scope

/-- A variable is among those that a visit of an expression takes from the supply. -/
def Generator.Takes (g : Generator) (e : Expression) (x : String) : Prop :=
  g.names.Issues (visit (.expression e) {} g).2.names x

/-- What the term of a use is, given the term of what it refers to: that one with variables for its
generic parameters, or one variable if there is none. -/
def Term.IsTermOfUse (takes : String → Prop) (term : Term) : Option Term → Prop
  | some known => known.IsInstance takes term
  | none => ∃ x, takes x ∧ term = .evar x

/-- What inference knows at the uses of a program, given the scope that it asks for names. -/
structure Program.TypesUses (program : Program) (scope : Scope) (inference : Inference) : Prop where
  /-- A use has a term: that of what the scope maps it to, if this has one in the end. -/
  typed : ∀ e g, program.VisitsUse scope e g →
    ∃ term, inference.nodeTerms.find e.id = some term ∧
      term.IsTermOfUse (g.Takes e) ((scope.patternFor e.id).bind inference.patternTerms.find)
  /-- What one use takes from the supply is in the term of no other use. -/
  apart : ∀ e g e' g', program.VisitsUse scope e g → program.VisitsUse scope e' g' → e ≠ e' →
    ∀ x, g.Takes e x → ∀ term, inference.nodeTerms.find e'.id = some term → x ∉ term.evars

/-! ## One visit of a use -/

namespace Generator

variable {g : Generator} {e : Expression} {x : String}

/-- A use is visited once, and the visit types it. -/
theorem enter_use (he : e.isUse) (g : Generator) :
    (g.enter (.expression e) {}).1.needsRevisit = false ∧
      entered (.expression e) g = g.typeUse e.id := by
  cases e with
  | identifier | member => exact ⟨rfl, rfl⟩
  | binary | call | literal | placeholder => cases he

/-- A use takes what its term takes. -/
theorem takes_iff (he : e.isUse) : g.Takes e x ↔ g.names.Issues (g.useTerm e.id).2.names x := by
  change g.names.Issues (entered (.expression e) g).names x ↔ _
  rw [(enter_use he g).2]
  rfl

/-- A use gets the term of what the name refers to as known at that moment. -/
theorem isTermOfUse_useTerm (he : e.isUse) (g : Generator) :
    (g.useTerm e.id).1.IsTermOfUse (g.Takes e) ((g.scope.patternFor e.id).bind g.patternTerm) := by
  have htakes : g.Takes e = g.names.Issues (g.useTerm e.id).2.names :=
    funext fun x => propext (takes_iff he)
  rw [htakes, useTerm]
  cases (g.scope.patternFor e.id).bind g.patternTerm with
  | some known => exact (known.isInstance_instantiate g.names).2
  | none => exact ⟨_, g.names.issues_evar, rfl⟩

/-- The variables in the term of a use are taken by it or are in the term of a pattern. -/
theorem mem_evars_useTerm (he : e.isUse) (hx : x ∈ (g.useTerm e.id).1.evars) :
    g.Takes e x ∨ ∃ pattern known, g.patternTerm pattern = some known ∧ x ∈ known.evars := by
  have hterm := isTermOfUse_useTerm he g
  cases hknown : (g.scope.patternFor e.id).bind g.patternTerm with
  | none =>
    rw [hknown] at hterm
    obtain ⟨y, hy, heq⟩ := hterm
    rw [heq, Term.mem_evars_evar] at hx
    exact .inl (hx ▸ hy)
  | some known =>
    rw [hknown] at hterm
    obtain ⟨ρ, hissued, -, heq⟩ := hterm
    rw [heq] at hx
    rcases Term.mem_evars_withVariables hx with hx | ⟨name, hname, rfl⟩
    · obtain ⟨pattern, -, hpattern⟩ := Option.bind_eq_some_iff.1 hknown
      exact .inr ⟨pattern, known, hpattern, hx⟩
    · exact .inl (hissued name hname)

end Generator

namespace Inference

variable {i : Inference} {function : Option Pattern} {children : List Outline} {g : Generator}
  {call : Call Generator}

/-- Every first visit is that of the walk of one node. -/
theorem Walks.walk_of_call {outline : Outline} (w : i.Walks function [outline] g)
    (hcall : call ∈ outline.callsPre visit g) (hfirst : call.again = false) :
    ∃ function children, i.Walk function call.node children call.state := by
  induction outline generalizing function g with
  | node item children ih =>
    rcases Outline.eq_or_exists_of_mem_callsPre hcall hfirst with
      rfl | ⟨hwalked, before, c, after, rfl, hbelow⟩
    · exact ⟨function, children, w.walk⟩
    · have hc : c ∈ before ++ c :: after := List.mem_append_right _ List.mem_cons_self
      have hchildren := w.walk.walks_children (Outline.isClosed_of_walked hwalked) hwalked
      exact ih c hc hchildren.drop.first hbelow

/-- The inference ends with the term that the first visit of a use gives to it. -/
theorem Walk.expression_eq_useTerm {e : Expression} (w : i.Walk function (.expression e) children g)
    (he : e.isUse) : i.typing.expression e.id = some (g.useTerm e.id).1 := by
  obtain ⟨hrevisit, hentered⟩ := Generator.enter_use he g
  have hdistinct := w.distinct
  rw [Outline.ids_node, List.nodup_cons] at hdistinct
  have hbetween : (between (.expression e) children g).nodeTerm e.id =
      (entered (.expression e) g).nodeTerm e.id :=
    (Outline.extends_between (fun c hc => (w.below c hc).extends_tour) g).nodes e.id hdistinct.1
  rw [w.keeps.nodes e List.mem_cons_self, Outline.tour_node, hrevisit,
    if_neg Bool.false_ne_true, hbetween, hentered]
  exact (Generator.nodeTerm_setNode _ _ _ _).trans (if_pos rfl)

end Inference

/-! ## Names and walks -/

namespace Program

variable {program : Program} {scope : Scope} {e e' : Expression} {g g' : Generator}

/-- Along the walk every visit finds a state that advances what the earlier ones have left. -/
theorem advances_calls (program : Program) (scope : Scope) :
    (∀ call ∈ program.outline.callsPre visit { scope }, Generator.Advances { scope } call.state) ∧
      (program.outline.callsPre visit { scope }).Pairwise fun earlier later =>
        (earlier.answer visit).2.Advances later.state :=
  Call.Threaded.pairwise Generator.Advances.refl Generator.Advances.trans
    Generator.advances_visit (program.outline.threaded_callsPre _).1

namespace VisitsUse

/-- A use is visited once, by a call of the walk. -/
theorem mem_callsPre (h : program.VisitsUse scope e g) :
    ⟨.expression e, false, g⟩ ∈ program.outline.callsPre visit { scope } := by
  obtain ⟨control, hmem⟩ := h.mem
  have hlog : program.inferenceVisits scope =
      (program.outline.callsPre visit { scope }).map Call.seen :=
    Outline.log_eq_map_seen Generator.visit_neverStops program.outline { scope }
  rw [hlog, List.mem_map] at hmem
  obtain ⟨⟨node, again, state⟩, hcall, hseen⟩ := hmem
  obtain ⟨rfl, -, rfl⟩ : node = .expression e ∧ _ = control ∧ state = g := by
    simpa only [Call.seen, Prod.mk.injEq] using hseen
  cases again with
  | false => exact hcall
  | true =>
    obtain ⟨s, hrevisit⟩ := Outline.needsRevisit_of_again hcall rfl
    have hnone : (visit (.expression e) {} s).1.needsRevisit = false :=
      (Generator.enter_use h.isUse s).1
    rw [hnone] at hrevisit
    cases hrevisit

/-- Each visit finds a state that advances the first one. -/
theorem advances (h : program.VisitsUse scope e g) : Generator.Advances { scope } g :=
  (program.advances_calls scope).1 _ h.mem_callsPre

/-- Of two uses, one is visited in a state that advances what the visit of the other leaves. -/
theorem advances_or (h : program.VisitsUse scope e g) (h' : program.VisitsUse scope e' g')
    (hne : e ≠ e') : (g.typeUse e.id).Advances g' ∨ (g'.typeUse e'.id).Advances g := by
  let Apart (first second : Call Generator) : Prop :=
    (first.answer visit).2.Advances second.state ∨ (second.answer visit).2.Advances first.state
  have hsymmetric : Std.Symm Apart := ⟨fun _ _ => Or.symm⟩
  have happart : (program.outline.callsPre visit { scope }).Pairwise Apart :=
    (program.advances_calls scope).2.imp .inl
  have hcalls : (⟨.expression e, false, g⟩ : Call Generator) ≠ ⟨.expression e', false, g'⟩ := by
    rintro ⟨⟩
    exact hne rfl
  rw [← (Generator.enter_use h.isUse g).2, ← (Generator.enter_use h'.isUse g').2]
  exact happart.forall h.mem_callsPre h'.mem_callsPre hcalls

/-- The inference ends with the term that the visit of a use gives to it. -/
theorem nodeTerm_eq (h : program.VisitsUse scope e g)
    (distinct : (program.nodes.map Node.id).Nodup) :
    (program.infer scope).nodeTerms.find e.id = some (g.useTerm e.id).1 := by
  obtain ⟨function, children, w⟩ :=
    (program.walks_infer scope distinct).walk_of_call h.mem_callsPre rfl
  exact w.expression_eq_useTerm h.isUse

end VisitsUse

/-- What a use refers to is settled when inference comes to the use. -/
theorem covers_lexical (program : Program) (scope : Scope)
    (distinct : (program.nodes.map Node.id).Nodup) :
    (program.infer scope).Covers program.lexical.2
      (program.outline.callsPre visit { scope }) := by
  have w := (program.walks_infer scope distinct).walk
  have hblock := Statement.inStepAll program.block (w.walks_children rfl rfl)
    Surroundings.All.start Known.All.start
  exact .node nofun fun _ => hblock.covers

/-- An expression that is found under a key is mentioned. -/
theorem isMention_of_mem_keys (distinct : (program.nodes.map Node.id).Nodup)
    (he : .expression e ∈ program.nodes) (hkey : e.id ∈ program.lexical.2.flatMap Use.keys) :
    e.isMention := by
  obtain ⟨use, huse, hkey⟩ := List.mem_flatMap.1 hkey
  obtain rfl := site_eq_of_mem_keys distinct he huse hkey
  have hsite : use.site ∈ program.outline.mentions := by
    rw [← program.map_site_lexical]
    exact List.mem_map_of_mem huse
  exact Outline.isMention_of_mem_mentions hsite

namespace VisitsUse

/-- What name resolution maps a use to is settled when inference comes to the use. -/
theorem settled (h : program.VisitsUse scope e g) (distinct : (program.nodes.map Node.id).Nodup)
    {target : NodeId} (htarget : (program.resolve none).patternFor e.id = some target) :
    (program.infer scope).Settled g target := by
  have hidentifiers : (program.lexical.2.foldl Use.record []).find e.id = some target := by
    rw [← program.identifiers_resolve]
    exact htarget
  by_cases hkey : e.id ∈ program.lexical.2.flatMap Use.keys
  · have hnode := Outline.node_mem_preorder_of_call h.mem_callsPre rfl
    have hmention := isMention_of_mem_keys distinct hnode hkey
    obtain ⟨use, huse, rfl, hsettled⟩ :=
      program.covers_lexical scope distinct _ h.mem_callsPre rfl e rfl hmention
    refine hsettled target ?_
    rw [← hidentifiers]
    exact (Use.find_foldl_record (nodup_keys_lexical distinct) huse use.id_mem_keys rfl).symm
  · rw [Use.find_foldl_record_of_not_mem hkey] at hidentifiers
    cases hidentifiers

/-- A use finds in its scope the term that what it refers to has in the end. -/
theorem known_eq (h : program.VisitsUse (program.resolve none) e g)
    (distinct : (program.nodes.map Node.id).Nodup) :
    ((program.resolve none).patternFor e.id).bind
        (program.infer (program.resolve none)).patternTerms.find =
      (g.scope.patternFor e.id).bind g.patternTerm := by
  have hscope : g.scope = program.resolve none := h.advances.scope
  rw [hscope]
  cases htarget : (program.resolve none).patternFor e.id with
  | none => rfl
  | some target => exact h.settled distinct htarget

/-- The variables in the term of a pattern are given out before a use that finds the term. -/
theorem issues_of_patternTerm (h : program.VisitsUse scope e g) {pattern : NodeId} {known : Term}
    (hknown : g.patternTerm pattern = some known) {x : String} (hx : x ∈ known.evars) :
    NameSupply.start.Issues g.names x := by
  rcases h.advances.patterns pattern known hknown with hstart | hissued
  · cases hstart
  · exact hissued x hx

/-- The variables in the term of a use are given out by the time the use has been visited. -/
theorem issues_of_mem_evars (h : program.VisitsUse scope e g) {x : String}
    (hx : x ∈ (g.useTerm e.id).1.evars) : NameSupply.start.Issues (g.typeUse e.id).names x := by
  rcases Generator.mem_evars_useTerm h.isUse hx with htakes | ⟨pattern, known, hknown, hx⟩
  · exact ((Generator.takes_iff h.isUse).1 htakes).mono_left h.advances.issued
  · exact (h.issues_of_patternTerm hknown hx).mono_right
      (Generator.advances_typeUse e.id g).issued

/-- What a use takes is not in the term of another one. -/
theorem not_mem_evars (h : program.VisitsUse scope e g) (h' : program.VisitsUse scope e' g')
    (hne : e ≠ e') {x : String} (htakes : g.Takes e x) : x ∉ (g'.useTerm e'.id).1.evars := by
  have hissued : g.names.Issues (g.typeUse e.id).names x := (Generator.takes_iff h.isUse).1 htakes
  intro hx
  rcases h.advances_or h' hne with hlater | hearlier
  · -- the other use comes later: its names are new, and so are those in terms given since
    rcases Generator.mem_evars_useTerm h'.isUse hx with htakes' | ⟨pattern, known, hknown, hx⟩
    · exact hissued.not_of_le hlater.issued ((Generator.takes_iff h'.isUse).1 htakes')
    · rcases hlater.patterns pattern known hknown with hbefore | hnew
      · have hsame : Generator.Extends [e.id] [] g (g.typeUse e.id) :=
          Generator.extends_typeUse List.mem_cons_self g
        rw [hsame.patterns pattern List.not_mem_nil] at hbefore
        exact (h.issues_of_patternTerm hbefore hx).not_of_le (Nat.le_refl _) hissued
      · exact hissued.not_of_le (Nat.le_refl _) (hnew x hx)
  · -- the other use has come before
    exact (h'.issues_of_mem_evars hx).not_of_le hearlier.issued hissued

end VisitsUse

/-- Inference knows at each use of a program what name resolution knows there. -/
theorem infer_typesUses (program : Program) (distinct : (program.nodes.map Node.id).Nodup) :
    program.TypesUses (program.resolve none) (program.infer (program.resolve none)) where
  typed e g h := by
    refine ⟨_, h.nodeTerm_eq distinct, ?_⟩
    rw [h.known_eq distinct]
    exact Generator.isTermOfUse_useTerm h.isUse g
  apart e g e' g' h h' hne x htakes term hterm := by
    rw [h'.nodeTerm_eq distinct] at hterm
    obtain rfl : (g'.useTerm e'.id).1 = term := Option.some.inj hterm
    exact h.not_mem_evars h' hne htakes

end Program

/-- `enumeration Box<T> { full(T) }`, then `func same<T>(x: T) -> T { return x }`, then
`for y in y { Box.full }`, then `same` twice, and at last `other`. -/
def boxesProgram : Program where
  id := .ofNat 0
  block := [
    .declaration (.ofNat 1) (.enumeration (.ofNat 2) ⟨.ofNat 3, "Box"⟩
      [.parameter (.ofNat 4) ⟨.ofNat 5, "T"⟩]
      [.case (.ofNat 6) ⟨.ofNat 7, "full"⟩ [.named (.ofNat 8) ⟨.ofNat 9, "T", false⟩ []]]),
    .declaration (.ofNat 10) (.function (.ofNat 11) ⟨.ofNat 12, "same"⟩
      (.named (.ofNat 13) ⟨.ofNat 14, "T", false⟩ []) [.parameter (.ofNat 15) ⟨.ofNat 16, "T"⟩]
      [.parameter (.ofNat 17) none ⟨.ofNat 18, "x"⟩ (.named (.ofNat 19) ⟨.ofNat 20, "T", false⟩ [])
        none]
      [.result (.ofNat 21) (.identifier (.ofNat 22) ⟨.ofNat 23, "x", false⟩)]),
    .loop (.ofNat 24) ⟨.ofNat 25, "y"⟩ (.identifier (.ofNat 26) ⟨.ofNat 27, "y", false⟩)
      [.expression (.ofNat 28) (.member (.ofNat 29)
        (.identifier (.ofNat 30) ⟨.ofNat 31, "Box", false⟩) ⟨.ofNat 32, "full", false⟩)],
    .expression (.ofNat 33) (.identifier (.ofNat 34) ⟨.ofNat 35, "same", false⟩),
    .expression (.ofNat 36) (.identifier (.ofNat 37) ⟨.ofNat 38, "same", false⟩),
    .expression (.ofNat 39) (.identifier (.ofNat 40) ⟨.ofNat 41, "other", false⟩)]

open Term in
/-- Each use of `same`, and that of the case, has variables of its own; `y` has the one variable of
the pattern of its loop, and `other`, which is not resolved, has a new one. -/
theorem infer_typesUses_boxes :
    (boxesProgram.nodes.map Node.id).Nodup ∧
      boxesProgram.TypesUses (boxesProgram.resolve none)
        (boxesProgram.infer (boxesProgram.resolve none)) ∧
      [22, 26, 29, 34, 37, 40].map (fun n =>
        (boxesProgram.infer (boxesProgram.resolve none)).nodeTerms.find (.ofNat n)) =
        [some (evar "3"), some (evar "4"), some (fn [⟨none, evar "5"⟩] (cons "Box" [evar "5"])),
          some (fn [⟨some "x", evar "6"⟩] (evar "6")), some (fn [⟨some "x", evar "7"⟩] (evar "7")),
          some (evar "8")] := by
  have hdistinct : (boxesProgram.nodes.map Node.id).Nodup := by decide
  exact ⟨hdistinct, boxesProgram.infer_typesUses hdistinct, by decide +kernel⟩

end TreeLang
