import TreeLang.Proofs.Term.Numbering
import TreeLang.Proofs.Typing.Uses

/-!
# Names of generic parameters

On the first visit of a declaration its generic parameters get their names, from the supply that
also gives out the type variables. So the names of a whole walk carry increasing numbers, and a use
replaces different parameters by different variables as long as the written names are unambiguous.
-/

namespace TreeLang

open Generator (visit)

/-- The generic parameters that a node declares. -/
def Node.genericPatterns : Node → List Pattern
  | .declaration d => d.genericPatterns
  | _ => []

/-- The written names of the generic parameters that are declared in a program. -/
def Program.genericParameters (program : Program) : List String :=
  (program.nodes.flatMap Node.genericPatterns).map Pattern.name

/-- The names that a visit gives to generic parameters. -/
def Generator.genericsNamed (g : Generator) (node : Node) (control : Control) : List String :=
  match node with
  | .declaration declaration =>
    if control.isRevisit then [] else (g.pushGenerics declaration).1.flatMap Term.generics
  | _ => []

/-- The names that inference gives to the generic parameters of a program, in the order of its
walk. -/
def Program.genericNames (program : Program) (scope : Scope) : List String :=
  (program.inferenceVisits scope).flatMap fun (node, control, g) => g.genericsNamed node control

namespace Generator

/-- The generic parameters of a declaration are named like a run of requests for them. -/
theorem nameGenerics_eq (patterns : List Pattern) (names : NameSupply) :
    (nameGenerics patterns names).1.flatMap Term.generics =
        names.genericNames (patterns.map fun pattern => .generic pattern.name) ∧
      (nameGenerics patterns names).2.2.issued = names.issued + patterns.length := by
  induction patterns generalizing names with
  | nil => exact ⟨rfl, rfl⟩
  | cons pattern rest ih =>
    obtain ⟨hnames, hissued⟩ := ih (names.genericName pattern.name).2
    refine ⟨?_, ?_⟩
    · rw [List.map_cons, NameSupply.genericNames, ← hnames]
      rfl
    · rw [List.length_cons, Nat.add_comm rest.length, ← Nat.add_assoc]
      exact hissued

/-- What a declaration does after naming its generic parameters gives out further names at most. -/
theorem issued_pushGenerics_le (declaration : Declaration) (control : Control) (g : Generator) :
    (g.pushGenerics declaration).2.names.issued ≤
      (g.enterDeclaration declaration control).2.names.issued := by
  cases declaration with
  | function id name result generics parameters block =>
    have hparameters := gives_parameterFormals parameters
      (g.pushGenerics (.function id name result generics parameters block)).2
    exact (hparameters.advances.trans (gives_typeTerm result _).advances).issued
  | record id name generics declarations =>
    exact (gives_memberFormals declarations
      (g.pushGenerics (.record id name generics declarations)).2).advances.issued
  | enumeration id name generics cases =>
    exact (advances_typeCases _
      (evars_cons_pushGenerics (.enumeration id name generics cases) g _) cases _).issued
  | value id name form initializer =>
    rw [enterDeclaration]
    split <;> exact Nat.le_refl _
  | space | library | placeholder => exact Nat.le_refl _

/-- The names of the generic parameters of a declaration carry increasing numbers. -/
theorem enterDeclaration_numbers (declaration : Declaration) (control : Control) (g : Generator) :
    ∃ given, g.names.Numbers (g.enterDeclaration declaration control).2.names given ∧
      given.map NumberedName.written = declaration.genericPatterns.map Pattern.name ∧
      given.map NumberedName.text = (g.pushGenerics declaration).1.flatMap Term.generics := by
  obtain ⟨hnames, hissued⟩ := nameGenerics_eq declaration.genericPatterns g.names
  obtain ⟨given, hnumbers, hwritten, htexts⟩ := NameSupply.genericNames_numbered
    (declaration.genericPatterns.map fun pattern => .generic pattern.name) g.names
  have hle : g.names.issued + declaration.genericPatterns.length ≤
      (g.enterDeclaration declaration control).2.names.issued :=
    hissued ▸ issued_pushGenerics_le declaration control g
  rw [List.length_map] at hnumbers
  rw [List.filterMap_map] at hwritten
  refine ⟨given, ?_, ?_, htexts.trans hnames.symm⟩
  · have hrest : NameSupply.Numbers _ (g.enterDeclaration declaration control).2.names [] :=
      .nil hle
    simpa only [List.append_nil] using hnumbers.append hrest
  · rw [hwritten]
    exact congrFun (List.filterMap_eq_map (f := Pattern.name)) _

/-- The names that one visit gives out carry increasing numbers that are new. -/
theorem visit_numbers (node : Node) (control : Control) (g : Generator) :
    ∃ given, g.names.Numbers (visit node control g).2.names given ∧
      (∀ name ∈ given, control.isRevisit = false ∧
        name.written ∈ node.genericPatterns.map Pattern.name) ∧
      given.map NumberedName.text = g.genericsNamed node control := by
  have hnone : g.names.Numbers (visit node control g).2.names [] :=
    .nil (advances_visit node control g).issued
  cases node with
  | declaration declaration =>
    rw [genericsNamed]
    by_cases hagain : control.isRevisit
    · exact ⟨[], hnone, nofun, (if_pos hagain).symm⟩
    · obtain ⟨given, hnumbers, hwritten, htexts⟩ := enterDeclaration_numbers declaration control g
      rw [visit, if_neg hagain, if_neg hagain]
      refine ⟨given, hnumbers, fun name hname => ⟨by simpa using hagain, ?_⟩, htexts⟩
      rw [Node.genericPatterns, ← hwritten]
      exact List.mem_map_of_mem hname
  | program | statement | expression | pattern | identifier | typeForm | literal | parameter
  | generic | case | argument => exact ⟨[], hnone, nofun, rfl⟩

/-- The names that the calls of a walk give out carry increasing numbers. -/
theorem calls_numbers {calls : List (Call Generator)} {g : Generator}
    (h : Call.Threaded visit calls g) :
    ∃ given, g.names.Numbers (Call.after visit calls g).names given ∧
      (∀ name ∈ given, ∃ call ∈ calls, call.again = false ∧
        name.written ∈ call.node.genericPatterns.map Pattern.name) ∧
      given.map NumberedName.text = (calls.map Call.seen).flatMap fun (node, control, g) =>
        g.genericsNamed node control := by
  induction calls generalizing g with
  | nil => exact ⟨[], .nil (Nat.le_refl _), nofun, rfl⟩
  | cons call rest ih =>
    obtain ⟨rfl, hrest⟩ := h
    obtain ⟨given, hnumbers, hwritten, htexts⟩ := visit_numbers call.node _ call.state
    obtain ⟨given', hnumbers', hwritten', htexts'⟩ := ih hrest
    refine ⟨given ++ given', hnumbers.append hnumbers', ?_, ?_⟩
    · refine List.forall_mem_append.2 ⟨fun name hname => ?_, fun name hname => ?_⟩
      · exact ⟨call, List.mem_cons_self, hwritten name hname⟩
      · obtain ⟨later, hlater, hmem⟩ := hwritten' name hname
        exact ⟨later, List.mem_cons_of_mem _ hlater, hmem⟩
    · rw [List.map_append, htexts, htexts']
      rfl

end Generator

/-- Inference numbers the written names of generic parameters. -/
theorem Program.genericNames_numbered (program : Program) (scope : Scope) :
    ∃ given after, NameSupply.start.Numbers after given ∧
      given.map NumberedName.written ⊆ program.genericParameters ∧
      given.map NumberedName.text = program.genericNames scope := by
  have hlog : program.inferenceVisits scope =
      (program.outline.callsPre visit { scope }).map Call.seen :=
    Outline.log_eq_map_seen Generator.visit_neverStops program.outline { scope }
  obtain ⟨given, hnumbers, hwritten, htexts⟩ :=
    Generator.calls_numbers (program.outline.threaded_callsPre { scope }).1
  refine ⟨given, _, hnumbers, ?_, ?_⟩
  · intro written hmem
    obtain ⟨name, hname, rfl⟩ := List.mem_map.1 hmem
    obtain ⟨call, hcall, hfirst, hpattern⟩ := hwritten name hname
    have hnode : call.node ∈ program.nodes := Outline.node_mem_preorder_of_call hcall hfirst
    rw [genericParameters, List.map_flatMap]
    exact List.mem_flatMap.2 ⟨call.node, hnode, hpattern⟩
  · rw [genericNames, hlog, htexts]

/-- Names of generic parameters are pairwise different when the written ones are unambiguous: those
of any run of a supply, and those of a program, so that a use has different variables for them. -/
theorem genericNames_unique (requests : List NameRequest) (names : NameSupply) (program : Program)
    (scope : Scope) :
    (Unambiguous (requests.filterMap NameRequest.written?) →
      (names.genericNames requests).Nodup) ∧
    (Unambiguous program.genericParameters →
      (program.genericNames scope).Nodup ∧
      ∀ (term : Term) (names : NameSupply), ∃ ρ : String → String,
        (term.instantiate names).1 = term.withVariables ρ ∧
        (program.genericNames scope).Pairwise fun outer inner =>
          outer ∈ term.generics → inner ∈ term.generics → ρ outer ≠ ρ inner) := by
  refine ⟨fun hwritten => ?_, fun hwritten => ?_⟩
  · obtain ⟨given, hnumbers, heq, htexts⟩ := names.genericNames_numbered requests
    rw [← htexts]
    exact hnumbers.nodup (heq ▸ hwritten)
  · obtain ⟨given, after, hnumbers, hsubset, htexts⟩ := program.genericNames_numbered scope
    have hnodup : (program.genericNames scope).Nodup :=
      htexts ▸ hnumbers.nodup (hwritten.mono hsubset)
    refine ⟨hnodup, fun term names => ?_⟩
    obtain ⟨ρ, -, hinjective, heq⟩ := (term.isInstance_instantiate names).2
    refine ⟨ρ, heq, hnodup.imp fun hne houter hinner hsame => ?_⟩
    exact hne (hinjective _ houter _ hinner hsame)

/-- `func f<…>(x: …) -> Unit { ?; …; ?; func g<…>(a: …, b: …) -> … {} g(1, "s") }`, with nine open
expressions: the type of `a` is the generic parameter of `f`, and that of `b` is the one of `g`. -/
def nestedGenerics (outer inner : String) : Program where
  id := .ofNat 0
  block := [.declaration (.ofNat 1) (.function (.ofNat 2) ⟨.ofNat 3, "f"⟩
    (.named (.ofNat 4) ⟨.ofNat 5, "Unit", false⟩ []) [.parameter (.ofNat 6) ⟨.ofNat 7, outer⟩]
    [.parameter (.ofNat 8) none ⟨.ofNat 9, "x"⟩ (.named (.ofNat 10) ⟨.ofNat 11, outer, false⟩ [])
      none]
    ((List.range 9).map (fun n =>
        .expression (.ofNat (12 + 2 * n)) (.placeholder (.ofNat (13 + 2 * n)))) ++
      [.declaration (.ofNat 30) (.function (.ofNat 31) ⟨.ofNat 32, "g"⟩
          (.named (.ofNat 33) ⟨.ofNat 34, inner, false⟩ [])
          [.parameter (.ofNat 35) ⟨.ofNat 36, inner⟩]
          [.parameter (.ofNat 37) none ⟨.ofNat 38, "a"⟩
              (.named (.ofNat 39) ⟨.ofNat 40, outer, false⟩ []) none,
            .parameter (.ofNat 41) none ⟨.ofNat 42, "b"⟩
              (.named (.ofNat 43) ⟨.ofNat 44, inner, false⟩ []) none] []),
        .expression (.ofNat 45) (.call (.ofNat 46) (.identifier (.ofNat 47) ⟨.ofNat 48, "g", false⟩)
          [.argument (.ofNat 49) none (.literal (.ofNat 50) (.number (.ofNat 51) 1)),
            .argument (.ofNat 52) none (.literal (.ofNat 53) (.string (.ofNat 54) "s"))])]))]

/-- A use of `g` has different variables for the parameters of `f` and of `g`. -/
theorem genericNames_unique_nested :
    (NameSupply.start.genericNames [.generic "T", .evar, .generic "U", .generic "T"]).Nodup ∧
      (nestedGenerics "T" "U").genericNames ((nestedGenerics "T" "U").resolve none) =
        ["T1", "U11"] ∧
      ∃ ρ : String → String,
        (Term.fn [⟨some "a", .gen "T1"⟩, ⟨some "b", .gen "U11"⟩] (.gen "U11")).withVariables ρ =
          .fn [⟨some "a", .evar "1"⟩, ⟨some "b", .evar "2"⟩] (.evar "2") ∧ ρ "T1" ≠ ρ "U11" := by
  have hnames : (nestedGenerics "T" "U").genericNames ((nestedGenerics "T" "U").resolve none) =
      ["T1", "U11"] := by decide +kernel
  have hunique := genericNames_unique [.generic "T", .evar, .generic "U", .generic "T"] .start
    (nestedGenerics "T" "U") ((nestedGenerics "T" "U").resolve none)
  obtain ⟨ρ, heq, happart⟩ := (hunique.2 (.of_last (by decide))).2
    (.fn [⟨some "a", .gen "T1"⟩, ⟨some "b", .gen "U11"⟩] (.gen "U11")) .start
  rw [hnames] at happart
  refine ⟨hunique.1 (.of_last (by decide)), hnames, ρ, heq.symm, ?_⟩
  exact List.rel_of_pairwise_cons happart List.mem_cons_self (by decide) (by decide)

/-- Written names that end with digits can lead to one name for two parameters: `T1` with the number
1 and `T` with the number 11 are both `T11`, in a run of a supply as well as in a program. -/
theorem not_forall_genericNames_nodup :
    (¬ ∀ requests : List NameRequest, requests.length < 0x100000000 →
      (NameSupply.start.genericNames requests).Nodup) ∧
    ¬ ∀ program : Program, (program.genericNames (program.resolve none)).Nodup := by
  refine ⟨fun h => ?_, fun h => ?_⟩
  · have hsame : (NameSupply.start.genericNames
        (.generic "T1" :: (List.replicate 9 .evar ++ [.generic "T"]))) = ["T11", "T11"] := by decide
    have hnodup := h (.generic "T1" :: (List.replicate 9 .evar ++ [.generic "T"])) (by decide)
    rw [hsame] at hnodup
    exact absurd hnodup (by decide)
  · have hsame : (nestedGenerics "T1" "T").genericNames ((nestedGenerics "T1" "T").resolve none) =
        ["T11", "T11"] := by decide +kernel
    have hnodup := h (nestedGenerics "T1" "T")
    rw [hsame] at hnodup
    exact absurd hnodup (by decide)

end TreeLang
