import TreeLang.Proofs.Term.Codec
import TreeLang.Tree.Codec

/-!
# Trees are read back

The encoder writes every field of a variant, also those that may be left out, so the decoder finds
each of them. Decoders recurse on a bound for the depth: what they give back is shown by induction
on that bound, with a case for each sort of node.
-/

namespace TreeLang

open Json

/-! ## Leaves -/

/-- A pattern is read back. -/
@[simp] theorem Pattern.ofJson?_toJson (pattern : Pattern) :
    Pattern.ofJson? pattern.toJson = some pattern := by
  rw [Pattern.toJson, Pattern.ofJson?, record?_obj (by simp)]
  simp [Fields.required]

/-- An identifier is read back. -/
@[simp] theorem Identifier.ofJson?_toJson (identifier : Identifier) :
    Identifier.ofJson? identifier.toJson = some identifier := by
  rw [Identifier.toJson, Identifier.ofJson?, record?_obj (by simp)]
  simp [Fields.required, Fields.defaulted]

/-- An operator is read back from its word. -/
@[simp] theorem Operator.ofJson?_word (operator : Operator) (nested : Bool) :
    Operator.ofJson? nested (str operator.word) = some operator := by
  cases operator <;> rfl

/-! ## Kinds -/

/-- The sorts of types are written with different names. -/
theorem TypeForm.kindsApart : KindsApart TypeForm.kinds := by decide

/-- The sorts of expressions are written with different names. -/
theorem Expression.kindsApart : KindsApart Expression.kinds := by decide

/-- An argument is told from a placeholder by its name. -/
theorem Argument.kindsApart : KindsApart Argument.kinds := by decide

/-- The sorts of literals are written with different names. -/
theorem Literal.kindsApart : KindsApart Literal.kinds := by decide

/-- A parameter is told from a placeholder by its name. -/
theorem Parameter.kindsApart : KindsApart Parameter.kinds := by decide

/-- A generic parameter is told from a placeholder by its name. -/
theorem GenericParameter.kindsApart : KindsApart GenericParameter.kinds := by decide

/-- A case is told from a placeholder by its name. -/
theorem EnumerationCase.kindsApart : KindsApart EnumerationCase.kinds := by decide

/-- The sorts of statements are written with different names. -/
theorem Statement.kindsApart : KindsApart Statement.kinds := by decide

/-- The sorts of declarations are written with different names. -/
theorem Declaration.kindsApart : KindsApart Declaration.kinds := by decide

/-- A variant that is written with the fields of its kind is read as that variant. -/
theorem variant?_variantJson {kinds : List Kind} (apart : KindsApart kinds) {kind : String}
    {id : NodeId} {fields : Fields}
    (hkind : kinds.find? (·.1 = kind) = some (kind, "id" :: fields.map Prod.fst)) (nested : Bool) :
    variant? kinds nested (variantJson kind id fields) =
      some (kind, ("id", ofNodeId id) :: fields) :=
  variant?_obj apart hkind nested

variable {n : Nat}

/-- The fields of a node are one level less deep than the node. -/
theorem depth_variantJson_le_succ {kind : String} {id : NodeId} {fields : Fields}
    (h : (variantJson kind id fields).depth ≤ n + 1) : fields.Forall (·.2.depth ≤ n) := by
  obtain ⟨-, hmembers⟩ := (List.forall_cons _ _ _).1 (depth_obj_le_succ.1 h)
  exact ((List.forall_cons _ _ _).1 hmembers).2

/-! ## Types -/

/-- Types are written one after the other as a list. -/
theorem TypeForm.arr_toJsons (forms : List TypeForm) :
    arr (TypeForm.toJsons forms) = list TypeForm.toJson forms :=
  arr_eq_list rfl (fun _ _ => rfl) forms

/-- No type is written as what stands for a missing one. -/
theorem TypeForm.toJson_ne_null (form : TypeForm) : form.toJson ≠ null := by
  cases form <;> exact nofun

/-- Types are read back, down to a depth. -/
theorem TypeForm.readsBack (n : Nat) (nested : Bool) :
    ReadsBack n TypeForm.toJson (TypeForm.ofJsonAt? n nested) := by
  induction n generalizing nested with
  | zero => exact .zero
  | succ n ih =>
    intro form hdepth
    cases form with
    | named id identifier arguments =>
      rw [toJson, arr_toJsons] at hdepth ⊢
      obtain ⟨-, harguments⟩ := depth_variantJson_le_succ hdepth
      rw [ofJsonAt?, variant?_variantJson kindsApart rfl]
      simp [Fields.required, Fields.defaulted, (ih true).list _ harguments]
    | function id result parameters =>
      rw [toJson, arr_toJsons] at hdepth ⊢
      obtain ⟨hresult, hparameters⟩ := depth_variantJson_le_succ hdepth
      rw [ofJsonAt?, variant?_variantJson kindsApart rfl]
      simp [Fields.required, Fields.defaulted, ih true _ hresult, (ih true).list _ hparameters]
    | placeholder id =>
      rw [toJson, ofJsonAt?, variant?_variantJson kindsApart rfl]
      simp [Fields.required]

/-! ## Expressions -/

/-- Expressions are written one after the other as a list. -/
theorem Expression.arr_toJsons (expressions : List Expression) :
    arr (Expression.toJsons expressions) = list Expression.toJson expressions :=
  arr_eq_list rfl (fun _ _ => rfl) expressions

theorem Argument.arr_toJsons (arguments : List Argument) :
    arr (Argument.toJsons arguments) = list Argument.toJson arguments :=
  arr_eq_list rfl (fun _ _ => rfl) arguments

/-- No expression is written as what stands for a missing one. -/
theorem Expression.toJson_ne_null (expression : Expression) : expression.toJson ≠ null := by
  cases expression <;> exact nofun

/-- Expressions and their parts are read back, down to a depth. -/
structure Expression.ReadsBack (n : Nat) : Prop where
  expression : ∀ nested, Json.ReadsBack n Expression.toJson (Expression.ofJsonAt? n nested)
  argument : Json.ReadsBack n Argument.toJson (Argument.ofJsonAt? n)
  literal : Json.ReadsBack n Literal.toJson (Literal.ofJsonAt? n)

namespace Expression.ReadsBack

/-- An expression is read back when its parts are, one level less deep. -/
theorem expression_succ (h : Expression.ReadsBack n) (nested : Bool) :
    Json.ReadsBack (n + 1) Expression.toJson (Expression.ofJsonAt? (n + 1) nested) := by
  intro expression hdepth
  -- each kind is found by its name, and then its fields one by one, the nested ones by `h`
  cases expression with
  | binary id left right operator =>
    rw [toJson] at hdepth ⊢
    obtain ⟨hleft, hright, -⟩ := depth_variantJson_le_succ hdepth
    rw [ofJsonAt?, variant?_variantJson kindsApart rfl]
    simp [Fields.required, h.expression true _ hleft, h.expression true _ hright]
  | identifier id used =>
    rw [toJson, ofJsonAt?, variant?_variantJson kindsApart rfl]
    simp [Fields.required]
  | call id callee arguments =>
    rw [toJson, Argument.arr_toJsons] at hdepth ⊢
    obtain ⟨hcallee, harguments⟩ := depth_variantJson_le_succ hdepth
    rw [ofJsonAt?, variant?_variantJson kindsApart rfl]
    simp [Fields.required, Fields.defaulted, h.expression true _ hcallee,
      h.argument.list _ harguments]
  | literal id literal =>
    rw [toJson] at hdepth ⊢
    have hpart := depth_variantJson_le_succ hdepth
    rw [ofJsonAt?, variant?_variantJson kindsApart rfl]
    simp [Fields.required, h.literal _ hpart]
  | member id base name =>
    rw [toJson] at hdepth ⊢
    obtain ⟨hbase, -⟩ := depth_variantJson_le_succ hdepth
    rw [ofJsonAt?, variant?_variantJson kindsApart rfl]
    simp [Fields.required, h.expression true _ hbase]
  | placeholder id =>
    rw [toJson, ofJsonAt?, variant?_variantJson kindsApart rfl]
    simp [Fields.required]

/-- An argument is read back when its expression is. -/
theorem argument_succ (h : Expression.ReadsBack n) :
    Json.ReadsBack (n + 1) Argument.toJson (Argument.ofJsonAt? (n + 1)) := by
  intro argument hdepth
  cases argument with
  | argument id label expression =>
    rw [Argument.toJson] at hdepth ⊢
    obtain ⟨hlabel, hexpression⟩ := depth_variantJson_le_succ hdepth
    rw [Argument.ofJsonAt?, variant?_variantJson Argument.kindsApart rfl]
    simp [Fields.required, readsBack_str.optional str_ne_null hlabel,
      h.expression true _ hexpression]
  | placeholder id =>
    rw [Argument.toJson, Argument.ofJsonAt?, variant?_variantJson Argument.kindsApart rfl]
    simp [Fields.required]

/-- A literal is read back when its items are. -/
theorem literal_succ (h : Expression.ReadsBack n) :
    Json.ReadsBack (n + 1) Literal.toJson (Literal.ofJsonAt? (n + 1)) := by
  intro literal hdepth
  cases literal with
  | array id items =>
    rw [Literal.toJson, Expression.arr_toJsons] at hdepth ⊢
    have hpart := depth_variantJson_le_succ hdepth
    rw [Literal.ofJsonAt?, variant?_variantJson Literal.kindsApart rfl]
    simp [Fields.required, (h.expression true).list _ hpart]
  | none | boolean | number | string | color =>
    rw [Literal.toJson, Literal.ofJsonAt?, variant?_variantJson Literal.kindsApart rfl]
    simp [Fields.required]

end Expression.ReadsBack

/-- Expressions, arguments and literals are read back down to any depth. -/
theorem Expression.readsBack (n : Nat) : Expression.ReadsBack n := by
  induction n with
  | zero => exact ⟨fun nested => .zero, .zero, .zero⟩
  | succ n ih => exact ⟨ih.expression_succ, ih.argument_succ, ih.literal_succ⟩

/-! ## Parts of declarations -/

/-- A parameter is read back, with its type and its default. -/
theorem Parameter.readsBack (n : Nat) :
    ReadsBack n Parameter.toJson (Parameter.ofJsonAt? n) := by
  intro parameter hdepth
  cases parameter with
  | parameter id externalName localName typeForm defaultValue =>
    rw [toJson] at hdepth ⊢
    obtain ⟨hexternal, -, htype, hdefault⟩ := depth_variantJson_le_succ (Nat.le_succ_of_le hdepth)
    rw [ofJsonAt?, variant?_variantJson kindsApart rfl]
    simp [Fields.required, readsBack_str.optional str_ne_null hexternal,
      TypeForm.readsBack n true _ htype,
      ((Expression.readsBack n).expression true).optional Expression.toJson_ne_null hdefault]
  | placeholder id =>
    rw [toJson, ofJsonAt?, variant?_variantJson kindsApart rfl]
    simp [Fields.required]

/-- A generic parameter is read back. -/
theorem GenericParameter.readsBack (n : Nat) :
    ReadsBack n GenericParameter.toJson GenericParameter.ofJson? := by
  intro generic _
  cases generic with
  | parameter | placeholder =>
    rw [toJson, ofJson?, variant?_variantJson kindsApart rfl]
    simp [Fields.required]

/-- A case is read back, with its types. -/
theorem EnumerationCase.readsBack (n : Nat) :
    ReadsBack n EnumerationCase.toJson (EnumerationCase.ofJsonAt? n) := by
  intro case hdepth
  cases case with
  | case id name associatedTypes =>
    rw [toJson, TypeForm.arr_toJsons] at hdepth ⊢
    obtain ⟨-, htypes⟩ := depth_variantJson_le_succ (Nat.le_succ_of_le hdepth)
    rw [ofJsonAt?, variant?_variantJson kindsApart rfl]
    simp [Fields.required, Fields.defaulted, (TypeForm.readsBack n true).list _ htypes]
  | placeholder id =>
    rw [toJson, ofJsonAt?, variant?_variantJson kindsApart rfl]
    simp [Fields.required]

/-! ## Statements and declarations -/

/-- Blocks are written as lists of statements. -/
theorem Statement.arr_toJsons (block : List Statement) :
    arr (Statement.toJsons block) = list Statement.toJson block :=
  arr_eq_list rfl (fun _ _ => rfl) block

/-- Members are written as lists of declarations. -/
theorem Declaration.arr_toJsons (declarations : List Declaration) :
    arr (Declaration.toJsons declarations) = list Declaration.toJson declarations :=
  arr_eq_list rfl (fun _ _ => rfl) declarations

/-- Statements and declarations are read back, down to a depth. -/
structure Statement.ReadsBack (n : Nat) : Prop where
  statement : ∀ nested, Json.ReadsBack n Statement.toJson (Statement.ofJsonAt? n nested)
  declaration : ∀ nested, Json.ReadsBack n Declaration.toJson (Declaration.ofJsonAt? n nested)

namespace Statement.ReadsBack

/-- A statement is read back when its parts are, one level less deep. -/
theorem statement_succ (h : Statement.ReadsBack n) (nested : Bool) :
    Json.ReadsBack (n + 1) Statement.toJson (Statement.ofJsonAt? (n + 1) nested) := by
  -- expressions are read back by themselves, as no statement is part of one
  have hexpression := (Expression.readsBack n).expression true
  intro statement hdepth
  cases statement with
  | declaration id content =>
    rw [toJson] at hdepth ⊢
    have hpart := depth_variantJson_le_succ hdepth
    rw [ofJsonAt?, variant?_variantJson kindsApart rfl]
    simp [Fields.required, h.declaration true _ hpart]
  | branch id condition block =>
    rw [toJson, arr_toJsons] at hdepth ⊢
    obtain ⟨hcondition, hblock⟩ := depth_variantJson_le_succ hdepth
    rw [ofJsonAt?, variant?_variantJson kindsApart rfl]
    simp [Fields.required, Fields.defaulted, hexpression _ hcondition,
      (h.statement true).list _ hblock]
  | loop id pattern iterated block =>
    rw [toJson, arr_toJsons] at hdepth ⊢
    obtain ⟨-, hiterated, hblock⟩ := depth_variantJson_le_succ hdepth
    rw [ofJsonAt?, variant?_variantJson kindsApart rfl]
    simp [Fields.required, Fields.defaulted, hexpression _ hiterated,
      (h.statement true).list _ hblock]
  | expression id expression | result id expression =>
    rw [toJson] at hdepth ⊢
    have hpart := depth_variantJson_le_succ hdepth
    rw [ofJsonAt?, variant?_variantJson kindsApart rfl]
    simp [Fields.required, hexpression _ hpart]
  | placeholder id =>
    rw [toJson, ofJsonAt?, variant?_variantJson kindsApart rfl]
    simp [Fields.required]

/-- A declaration is read back when its parts are, one level less deep. -/
theorem declaration_succ (h : Statement.ReadsBack n) (nested : Bool) :
    Json.ReadsBack (n + 1) Declaration.toJson (Declaration.ofJsonAt? (n + 1) nested) := by
  intro declaration hdepth
  -- a type or an initializer that is absent is written as null, and no other one is
  cases declaration with
  | value id name typeForm initializer =>
    rw [Declaration.toJson] at hdepth ⊢
    obtain ⟨-, htype, hinitializer⟩ := depth_variantJson_le_succ hdepth
    rw [Declaration.ofJsonAt?, variant?_variantJson Declaration.kindsApart rfl]
    simp [Fields.required, (TypeForm.readsBack n true).optional TypeForm.toJson_ne_null htype,
      ((Expression.readsBack n).expression true).optional Expression.toJson_ne_null hinitializer]
  | function id name result generics parameters block =>
    rw [Declaration.toJson, arr_toJsons] at hdepth ⊢
    obtain ⟨-, hresult, hgenerics, hparameters, hblock⟩ := depth_variantJson_le_succ hdepth
    rw [Declaration.ofJsonAt?, variant?_variantJson Declaration.kindsApart rfl]
    simp [Fields.required, Fields.defaulted, TypeForm.readsBack n true _ hresult,
      (GenericParameter.readsBack n).list _ hgenerics, (Parameter.readsBack n).list _ hparameters,
      (h.statement true).list _ hblock]
  | enumeration id name generics cases =>
    rw [Declaration.toJson] at hdepth ⊢
    obtain ⟨-, hgenerics, hcases⟩ := depth_variantJson_le_succ hdepth
    rw [Declaration.ofJsonAt?, variant?_variantJson Declaration.kindsApart rfl]
    simp [Fields.required, Fields.defaulted, (GenericParameter.readsBack n).list _ hgenerics,
      (EnumerationCase.readsBack n).list _ hcases]
  | record id name generics declarations =>
    rw [Declaration.toJson, Declaration.arr_toJsons] at hdepth ⊢
    obtain ⟨-, hgenerics, hdeclarations⟩ := depth_variantJson_le_succ hdepth
    rw [Declaration.ofJsonAt?, variant?_variantJson Declaration.kindsApart rfl]
    simp [Fields.required, Fields.defaulted, (GenericParameter.readsBack n).list _ hgenerics,
      (h.declaration true).list _ hdeclarations]
  | space id name declarations =>
    rw [Declaration.toJson, Declaration.arr_toJsons] at hdepth ⊢
    obtain ⟨-, hdeclarations⟩ := depth_variantJson_le_succ hdepth
    rw [Declaration.ofJsonAt?, variant?_variantJson Declaration.kindsApart rfl]
    simp [Fields.required, Fields.defaulted, (h.declaration true).list _ hdeclarations]
  | library | placeholder =>
    rw [Declaration.toJson, Declaration.ofJsonAt?, variant?_variantJson Declaration.kindsApart rfl]
    simp [Fields.required]

end Statement.ReadsBack

/-- Statements and declarations are read back down to any depth. -/
theorem Statement.readsBack (n : Nat) : Statement.ReadsBack n := by
  induction n with
  | zero => exact ⟨fun nested => .zero, fun nested => .zero⟩
  | succ n ih => exact ⟨ih.statement_succ, ih.declaration_succ⟩

/-! ## Round trips -/

/-- Types are read back. -/
theorem TypeForm.ofJson?_toJson (form : TypeForm) : TypeForm.ofJson? form.toJson = some form :=
  TypeForm.readsBack _ false form (Nat.le_refl _)

/-- Expressions are read back. -/
theorem Expression.ofJson?_toJson (expression : Expression) :
    Expression.ofJson? expression.toJson = some expression :=
  (Expression.readsBack _).expression false expression (Nat.le_refl _)

/-- Statements are read back. -/
theorem Statement.ofJson?_toJson (statement : Statement) :
    Statement.ofJson? statement.toJson = some statement :=
  (Statement.readsBack _).statement false statement (Nat.le_refl _)

/-- Declarations are read back. -/
theorem Declaration.ofJson?_toJson (declaration : Declaration) :
    Declaration.ofJson? declaration.toJson = some declaration :=
  (Statement.readsBack _).declaration false declaration (Nat.le_refl _)

/-- Programs are read back. -/
theorem Program.ofJson?_toJson (program : Program) :
    Program.ofJson? program.toJson = some program := by
  have hjson : program.toJson =
      obj [("id", ofNodeId program.id), ("block", list Statement.toJson program.block)] := by
    rw [Program.toJson, Statement.arr_toJsons]
  have hblock : ∀ n, program.toJson.depth ≤ n →
      list? (Statement.ofJsonAt? n false) (list Statement.toJson program.block) =
        some program.block := by
    intro n hdepth
    rw [hjson] at hdepth
    have hpart := (depth_obj_le_succ.1 (Nat.le_succ_of_le hdepth)).2
    exact ((Statement.readsBack n).statement false).list _ hpart
  have hrecord : record? ["id", "block"] program.toJson =
      some [("id", ofNodeId program.id), ("block", list Statement.toJson program.block)] := by
    rw [hjson]
    exact record?_obj (by simp) _
  rw [Program.ofJson?, hrecord]
  simp [Fields.required, hblock _ (Nat.le_refl _)]

/-- Programs, statements, declarations, expressions, written types, terms and constraints survive
their JSON form, and different ones have different forms. -/
theorem codecs_roundTrip :
    RoundTrips Program.toJson Program.ofJson? ∧
      RoundTrips Statement.toJson Statement.ofJson? ∧
      RoundTrips Declaration.toJson Declaration.ofJson? ∧
      RoundTrips Expression.toJson Expression.ofJson? ∧
      RoundTrips TypeForm.toJson TypeForm.ofJson? ∧
      RoundTrips Term.toJson Term.ofJson? ∧
      RoundTrips Constraint.toJson Constraint.ofJson? :=
  ⟨.of_decode_encode Program.ofJson?_toJson, .of_decode_encode Statement.ofJson?_toJson,
    .of_decode_encode Declaration.ofJson?_toJson, .of_decode_encode Expression.ofJson?_toJson,
    .of_decode_encode TypeForm.ofJson?_toJson, .of_decode_encode Term.ofJson?_toJson,
    .of_decode_encode Constraint.ofJson?_toJson⟩

/-- A variable without a type, with a null initializer, a field that is not read, and its fields in
another order than they are written in. -/
def sparseVariable : Json :=
  obj [("note", bool true), ("initializer", null), ("id", integer 18446744073709551615),
    ("name", obj [("name", str "x"), ("id", integer 1)]), ("kind", str "variable")]

/-- What is left out is written out, so the form changes once and the variable does not. -/
theorem codecs_roundTrip_sparse :
    Declaration.ofJson? sparseVariable = some (.value .last ⟨.ofNat 1, "x"⟩ none none) ∧
      (Declaration.value .last ⟨.ofNat 1, "x"⟩ none none).toJson ≠ sparseVariable ∧
      Declaration.ofJson? (Declaration.value .last ⟨.ofNat 1, "x"⟩ none none).toJson =
        Declaration.ofJson? sparseVariable := by
  have hdecode : Declaration.ofJson? sparseVariable =
      some (.value .last ⟨.ofNat 1, "x"⟩ none none) := rfl
  obtain ⟨-, -, hdeclarations, -⟩ := codecs_roundTrip
  exact ⟨hdecode, by simp [Declaration.toJson, variantJson, sparseVariable],
    hdeclarations.decode_again hdecode⟩

end TreeLang
