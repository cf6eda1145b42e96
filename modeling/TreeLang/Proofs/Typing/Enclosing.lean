import TreeLang.Proofs.Typing.Naming

/-!
# The declarations around a written type

A written type reads its names in the generic parameters of the declarations around it. An enclosure
is a declaration together with those around it, each with the supply from which its generic
parameters get their names. So an enclosure tells what the written types of its innermost
declaration may mention.
-/

namespace TreeLang

open Generator (nameGenerics typeTerm typeTerms visit)

/-! ## Enclosures -/

/-- A declaration, as a walk comes to it. -/
structure Opening where
  declaration : Declaration
  /-- What its generic parameters get their names from. -/
  names : NameSupply

/-- A declaration with those around it, the innermost first. -/
abbrev Enclosure := List Opening

/-- The names that the generic parameters of a declaration get, in order. -/
def Opening.uniqueNames (o : Opening) : List String :=
  (nameGenerics o.declaration.genericPatterns o.names).1.flatMap Term.generics

/-- The table in which a declaration that can have generic parameters has their names. -/
def Opening.frames (o : Opening) : List (Table String String) :=
  match o.declaration with
  | .function _ _ _ _ _ _ | .record _ _ _ _ | .enumeration _ _ _ _ =>
    [(nameGenerics o.declaration.genericPatterns o.names).2.1]
  | .value _ _ _ _ | .space _ _ _ | .library _ _ | .placeholder _ => []

namespace Enclosure

/-- The tables of all the declarations, the innermost first. -/
def frames (chain : Enclosure) : List (Table String String) := chain.flatMap Opening.frames

/-- The generic parameter that a written name stands for. -/
def lookUp (chain : Enclosure) (name : String) : Option String :=
  chain.frames.findSome? fun frame => frame.find name

/-- The generic parameter belongs to one of the declarations. -/
def Owns (chain : Enclosure) (unique : String) : Prop := ∃ o ∈ chain, unique ∈ o.uniqueNames

end Enclosure

/-! ## Enclosures of a walk -/

/-- A declaration is entered when a walk comes to its node. -/
def Node.openings (names : NameSupply) : Node → List Opening
  | .declaration d => [⟨d, names⟩]
  | _ => []

mutual

/-- The declarations that inference comes to in an outline, each with those around it. -/
def Outline.enclosures (around : Enclosure) : Outline → Generator → List Enclosure
  | .node item children, g =>
    let (asked, next) := visit item {} g
    (item.openings g.names).map (· :: around) ++
      if asked.ignoreChildren then []
      else Outline.enclosuresAll (item.openings g.names ++ around) children next

/-- The declarations that inference comes to in several outlines, one after the other. -/
def Outline.enclosuresAll (around : Enclosure) : List Outline → Generator → List Enclosure
  | [], _ => []
  | outline :: rest, g =>
    outline.enclosures around g ++ Outline.enclosuresAll around rest (outline.tour visit g)

end

/-- The declarations that inference comes to in a program, each with those around it. -/
def Program.enclosures (program : Program) (scope : Scope) : List Enclosure :=
  program.outline.enclosures [] { scope }

/-! ## Written names -/

mutual

/-- The names that are written in a type. -/
def TypeForm.written : TypeForm → List String
  | .named _ identifier arguments => identifier.name :: TypeForm.writtenAll arguments
  | .function _ result parameters => TypeForm.writtenAll parameters ++ result.written
  | .placeholder _ => []

/-- The names that are written in several types. -/
def TypeForm.writtenAll : List TypeForm → List String
  | [] => []
  | form :: rest => form.written ++ TypeForm.writtenAll rest

end

/-- The names that are written in several types are those of each. -/
theorem TypeForm.writtenAll_eq_flatMap (forms : List TypeForm) :
    writtenAll forms = forms.flatMap written := by
  induction forms with
  | nil => rfl
  | cons form rest ih => rw [writtenAll, ih, List.flatMap_cons]

/-- The written type of a parameter. -/
def Parameter.forms : Parameter → List TypeForm
  | .parameter _ _ _ form _ => [form]
  | .placeholder _ => []

/-- The written type of a member of a record. -/
def Declaration.memberForms : Declaration → List TypeForm
  | .value _ _ (some form) _ => [form]
  | _ => []

/-- The written types of the values of a case. -/
def EnumerationCase.forms : EnumerationCase → List TypeForm
  | .case _ _ forms => forms
  | .placeholder _ => []

/-- The written types of a declaration. -/
def Declaration.forms : Declaration → List TypeForm
  | .function _ _ result _ parameters _ => parameters.flatMap Parameter.forms ++ [result]
  | .record _ _ _ declarations => declarations.flatMap Declaration.memberForms
  | .enumeration _ _ _ cases => cases.flatMap EnumerationCase.forms
  | .value _ _ form _ => form.toList
  | .space _ _ _ | .library _ _ | .placeholder _ => []

/-- The parameters of a function. -/
def Declaration.parameters : Declaration → List Parameter
  | .function _ _ _ _ parameters _ => parameters
  | _ => []

/-- The ids of the patterns that get their terms from a declaration. -/
def Declaration.typedPatterns (d : Declaration) : List NodeId :=
  (Node.declaration d).declares ++ d.parameters.flatMap Parameter.declares

/-- The generic parameters that are in the type that a declaration introduces. -/
def Opening.ownNames (o : Opening) : List String :=
  match o.declaration with
  | .record _ _ _ _ | .enumeration _ _ _ _ => o.uniqueNames
  | _ => []

/-- The innermost declaration mentions the generic parameter: by a name in one of its written types,
or because it is in the type that the declaration introduces. -/
def Enclosure.Mentions : Enclosure → String → Prop
  | [], _ => False
  | o :: around, unique =>
    (∃ form ∈ o.declaration.forms, ∃ name ∈ form.written,
      lookUp (o :: around) name = some unique) ∨ unique ∈ o.ownNames

/-- The innermost declaration gives the pattern its term. -/
def Enclosure.Types : Enclosure → NodeId → Prop
  | [], _ => False
  | o :: _, id => id ∈ o.declaration.typedPatterns

/-! ## What is mentioned belongs to a declaration around -/

namespace Opening

/-- A name in the table of generic parameters is that of one of them. -/
theorem mem_of_find_nameGenerics {patterns : List Pattern} {names : NameSupply}
    {name unique : String} (h : (nameGenerics patterns names).2.1.find name = some unique) :
    unique ∈ (nameGenerics patterns names).1.flatMap Term.generics := by
  induction patterns generalizing names with
  | nil => cases h
  | cons pattern rest ih =>
    have hterms : (nameGenerics (pattern :: rest) names).1.flatMap Term.generics =
        (names.genericName pattern.name).1 ::
          (nameGenerics rest (names.genericName pattern.name).2).1.flatMap Term.generics := rfl
    have hframe : (nameGenerics (pattern :: rest) names).2.1 =
        if (nameGenerics rest (names.genericName pattern.name).2).2.1.has pattern.name then
          (nameGenerics rest (names.genericName pattern.name).2).2.1
        else (pattern.name, (names.genericName pattern.name).1) ::
          (nameGenerics rest (names.genericName pattern.name).2).2.1 := rfl
    rw [hterms]
    rw [hframe] at h
    by_cases hlater : (nameGenerics rest (names.genericName pattern.name).2).2.1.has pattern.name
    · rw [if_pos hlater] at h
      exact List.mem_cons_of_mem _ (ih h)
    · rw [if_neg hlater, Table.find] at h
      by_cases hname : pattern.name = name
      · rw [if_pos hname] at h
        exact List.mem_cons.2 (.inl (Option.some.inj h).symm)
      · rw [if_neg hname] at h
        exact List.mem_cons_of_mem _ (ih h)

/-- The name that a frame gives to a parameter is one of those that were opened. -/
theorem mem_uniqueNames_of_find {o : Opening} {frame : Table String String}
    (hframe : frame ∈ o.frames) {name unique : String} (h : frame.find name = some unique) :
    unique ∈ o.uniqueNames := by
  obtain ⟨declaration, names⟩ := o
  cases declaration with
  | function | record | enumeration =>
    rw [List.mem_singleton.1 hframe] at h
    exact mem_of_find_nameGenerics h
  | value | space | library | placeholder => cases hframe

/-- The names of a declaration are among those that were opened with it. -/
theorem ownNames_subset (o : Opening) : o.ownNames ⊆ o.uniqueNames := by
  obtain ⟨declaration, names⟩ := o
  cases declaration with
  | record | enumeration => exact List.Subset.refl _
  | function | value | space | library | placeholder => exact List.nil_subset _

end Opening

namespace Enclosure

variable {chain : Enclosure} {name unique : String}

/-- A written name stands for a generic parameter of a declaration around. -/
theorem owns_of_lookUp (h : chain.lookUp name = some unique) : chain.Owns unique := by
  obtain ⟨frame, hframe, hfind⟩ := List.exists_of_findSome?_eq_some h
  obtain ⟨o, ho, hmem⟩ := List.mem_flatMap.1 hframe
  exact ⟨o, ho, Opening.mem_uniqueNames_of_find hmem hfind⟩

/-- What the innermost declaration mentions belongs to it or to one around it. -/
theorem owns_of_mentions (h : chain.Mentions unique) : chain.Owns unique := by
  cases chain with
  | nil => cases h
  | cons o around =>
    rcases h with ⟨form, -, name, -, hname⟩ | hown
    · exact owns_of_lookUp hname
    · exact ⟨o, List.mem_cons_self, o.ownNames_subset hown⟩

end Enclosure

/-! ## Terms of written types -/

namespace Generator

variable {unique : String}

/-- The parameters around do not depend on the names that were given out. -/
theorem genericInScope_withNames (g : Generator) (names : NameSupply) (name : String) :
    genericInScope { g with names } name = g.genericInScope name := rfl

mutual

/-- The generic parameters in the term of a written type are what its names stand for. -/
theorem exists_written_of_mem_generics_typeTerm (form : TypeForm) (g : Generator)
    (h : unique ∈ (typeTerm form g).1.generics) :
    ∃ name ∈ form.written, g.genericInScope name = some unique := by
  cases form with
  | named id identifier arguments =>
    rw [typeTerm] at h
    cases hname : g.genericInScope identifier.name with
    | some found =>
      rw [hname] at h
      obtain rfl : unique = found := List.mem_singleton.1 h
      exact ⟨identifier.name, List.mem_cons_self, hname⟩
    | none =>
      rw [hname] at h
      have harguments : unique ∈ (typeTerms arguments g).1.flatMap Term.generics := by
        rw [← Term.genericsList_eq_flatMap]
        exact h
      obtain ⟨name, hmem, hfound⟩ := exists_written_of_mem_generics_typeTerms arguments g harguments
      exact ⟨name, List.mem_cons_of_mem _ hmem, hfound⟩
  | function id result parameters =>
    have hterm : (typeTerm (.function id result parameters) g).1.generics =
        (typeTerms parameters g).1.flatMap Term.generics ++
          (typeTerm result (typeTerms parameters g).2).1.generics := by
      rw [typeTerm, Term.generics, Term.genericsFormals_eq_flatMap, List.flatMap_map]
      rfl
    rw [hterm, List.mem_append] at h
    rcases h with h | h
    · obtain ⟨name, hmem, hfound⟩ := exists_written_of_mem_generics_typeTerms parameters g h
      exact ⟨name, List.mem_append_left _ hmem, hfound⟩
    · obtain ⟨name, hmem, hfound⟩ := exists_written_of_mem_generics_typeTerm result _ h
      -- the types of the parameters take names from the supply only
      obtain ⟨names, hnames⟩ := typeTerms_eq parameters g
      rw [hnames, genericInScope_withNames] at hfound
      exact ⟨name, List.mem_append_right _ hmem, hfound⟩
  | placeholder id => cases h

/-- The generic parameters in several types are those that written names refer to. -/
theorem exists_written_of_mem_generics_typeTerms (forms : List TypeForm) (g : Generator)
    (h : unique ∈ (typeTerms forms g).1.flatMap Term.generics) :
    ∃ name ∈ TypeForm.writtenAll forms, g.genericInScope name = some unique := by
  cases forms with
  | nil => cases h
  | cons form rest =>
    rw [typeTerms, List.flatMap_cons, List.mem_append] at h
    rw [TypeForm.writtenAll]
    rcases h with h | h
    · obtain ⟨name, hmem, hfound⟩ := exists_written_of_mem_generics_typeTerm form g h
      exact ⟨name, List.mem_append_left _ hmem, hfound⟩
    · obtain ⟨name, hmem, hfound⟩ := exists_written_of_mem_generics_typeTerms rest _ h
      obtain ⟨names, hnames⟩ := typeTerm_eq form g
      rw [hnames, genericInScope_withNames] at hfound
      exact ⟨name, List.mem_append_right _ hmem, hfound⟩

end

end Generator

end TreeLang
