import TreeLang.Proofs.Scope.Replacing
import TreeLang.Proofs.Scope.Resolution
import TreeLang.Proofs.Scope.Visible

/-!
# Suggestions

Name resolution up to a target lists the values that are visible there. These are the values that an
identifier refers to which is written in the place of the target: the walk up to the target and the
walk over the edited program are in one state there, and the rest of that walk records nothing under
the ids of the new identifier.
-/

namespace TreeLang

open Outline (Placed)
open Resolver (visitAll)

namespace Resolver

variable {ids : List NodeId} {r s t : Resolver}

/-- What is recorded under other ids than the given ones is the same, and no frame gets a name
twice. -/
structure Keeps (ids : List NodeId) (r s : Resolver) : Prop where
  identifiers : ∀ key ∉ ids, s.scope.identifiers.find key = r.scope.identifiers.find key
  unresolved : ∀ key ∉ ids, (key ∈ s.scope.unresolved ↔ key ∈ r.scope.unresolved)
  reachedTarget : s.scope.reachedTarget = r.scope.reachedTarget
  distinct : r.scope.values.Distinct → s.scope.values.Distinct

namespace Keeps

/-- A state keeps what is recorded in it. -/
theorem refl (r : Resolver) : Keeps ids r r :=
  ⟨fun _ _ => rfl, fun _ _ => .rfl, rfl, id⟩

/-- What two steps keep, both keep one after the other. -/
theorem trans (h : Keeps ids r s) (h' : Keeps ids s t) : Keeps ids r t :=
  ⟨fun key hkey => (h'.identifiers key hkey).trans (h.identifiers key hkey),
    fun key hkey => (h'.unresolved key hkey).trans (h.unresolved key hkey),
    h'.reachedTarget.trans h.reachedTarget, h'.distinct ∘ h.distinct⟩

instance : IsPreorder Resolver (Keeps ids) where
  refl := refl
  trans _ _ _ := trans

/-- A change that records no identifier. -/
theorem aside (h : Keeps ids r s) (hidentifiers : t.scope.identifiers = s.scope.identifiers)
    (hunresolved : t.scope.unresolved = s.scope.unresolved)
    (hreached : t.scope.reachedTarget = s.scope.reachedTarget)
    (hvalues : s.scope.values.Distinct → t.scope.values.Distinct) : Keeps ids r t :=
  h.trans ⟨fun _ _ => by rw [hidentifiers], fun _ _ => by rw [hunresolved], hreached, hvalues⟩

/-- Binding a value records no use. -/
theorem bindValue (h : Keeps ids r s) (pattern : Pattern) :
    Keeps ids r (s.onScope (·.bindValue pattern)) :=
  h.aside rfl rfl rfl fun hdistinct => hdistinct.set pattern.name pattern.id

/-- Binding a type records no use. -/
theorem bindType (h : Keeps ids r s) (pattern : Pattern) :
    Keeps ids r (s.onScope (·.bindType pattern)) := h.aside rfl rfl rfl id

/-- Naming a pattern records no use. -/
theorem nameOnly (h : Keeps ids r s) (pattern : Pattern) :
    Keeps ids r (s.onScope (·.nameOnly pattern)) := h.aside rfl rfl rfl id

/-- Noting type parameters records no use. -/
theorem noteTypeParameters (h : Keeps ids r s) (name : Pattern) (declaration : Declaration) :
    Keeps ids r (s.onScope (·.noteTypeParameters name declaration)) := by
  rw [onScope]
  simp only [Scope.noteTypeParameters]
  split
  · exact h
  · exact h.aside rfl rfl rfl id

/-- New frames have no name twice. -/
theorem push (h : Keeps ids r s) :
    Keeps ids r (s.onScope fun scope => scope.pushValues.pushTypes) :=
  h.aside rfl rfl rfl ScopeStack.Distinct.push

/-- The frames that are left after a pop have no name twice. -/
theorem pop (h : Keeps ids r s) : Keeps ids r (s.onScope fun scope => scope.popValues.popTypes) :=
  h.aside rfl rfl rfl ScopeStack.Distinct.pop

/-- Registering a declaration records no use. -/
theorem register (h : Keeps ids r s) (pattern : Pattern) : Keeps ids r (s.register pattern) := by
  simp only [Resolver.register]
  split
  · exact h
  · split
    · exact h.aside rfl rfl rfl id
    · exact h

/-- Entering a namespace records no use. -/
theorem enterSpace (h : Keeps ids r s) (name : String) : Keeps ids r (s.enterSpace name) :=
  h.aside rfl rfl rfl id

/-- Leaving a namespace records no use. -/
theorem leaveSpace (h : Keeps ids r s) : Keeps ids r s.leaveSpace :=
  h.aside rfl rfl rfl id

/-- The number of functions around is not a record of uses. -/
theorem atDepth (h : Keeps ids r s) (depth : Nat) :
    Keeps ids r { s with functionDepth := depth } := h.aside rfl rfl rfl id

/-- What each step keeps is kept by several of them. -/
theorem foldl {α : Type} {f : Resolver → α → Resolver} (hf : ∀ s a, Keeps ids s (f s a))
    (h : Keeps ids r s) (l : List α) : Keeps ids r (l.foldl f s) := by
  induction l generalizing s with
  | nil => exact h
  | cons a rest ih => exact ih (h.trans (hf s a))

/-- Binding a parameter records no use. -/
theorem bindParameter (s : Resolver) (parameter : Parameter) :
    Keeps ids s (s.bindParameter parameter) := by
  cases parameter with
  | parameter id externalName localName form value => exact (refl s).bindValue localName
  | placeholder id => exact refl s

/-- Registering a case records no use. -/
theorem registerCase (s : Resolver) (case : EnumerationCase) :
    Keeps ids s (s.registerCase case) := by
  cases case with
  | case id name forms => exact ((refl s).nameOnly name).register name
  | placeholder id => exact refl s

/-- Entering a declaration records no use. -/
theorem enterDeclaration (r : Resolver) (declaration : Declaration) :
    Keeps ids r (r.enterDeclaration declaration) := by
  cases declaration with
  | function id name result generics parameters block =>
    have hdeclared : Keeps ids r _ := ((refl r).bindValue name).register name
    have hopened := (hdeclared.noteTypeParameters name
      (.function id name result generics parameters block)).push
    exact ((hopened.foldl bindParameter parameters).foldl (fun s => (refl s).bindType) _).atDepth _
  | record id name generics declarations =>
    exact ((refl r).bindType name).noteTypeParameters name _
  | enumeration id name generics cases => exact (refl r).bindType name
  | space id name declarations => exact (((refl r).nameOnly name).enterSpace name.name).push
  | value | library | placeholder => exact refl r

/-- Leaving a declaration records no use. -/
theorem leaveDeclaration (r : Resolver) (declaration : Declaration) :
    Keeps ids r (r.leaveDeclaration declaration) := by
  cases declaration with
  | function id name result generics parameters block => exact ((refl r).atDepth _).pop
  | value id name form initializer => exact ((refl r).bindValue name).register name
  | record id name generics declarations =>
    rw [Resolver.leaveDeclaration]
    split
    · exact refl r
    · exact ((refl r).bindValue name).register name
  | enumeration id name generics cases =>
    exact (((((refl r).noteTypeParameters name _).enterSpace name.name).foldl registerCase
      cases)).leaveSpace
  | space id name declarations => exact (refl r).leaveSpace.pop
  | library | placeholder => exact refl r

/-- An identifier is recorded under its own ids. -/
theorem resolve (r : Resolver) {id : NodeId} {used : Identifier} (hid : id ∈ ids)
    (hused : used.id ∈ ids) : Keeps ids r (r.onScope (·.resolve id used)) := by
  rw [onScope, Scope.resolve]
  split
  · exact refl r
  · split
    · next pattern hvalue =>
      refine ⟨fun key hkey => ?_, fun _ _ => .rfl, rfl, fun h => h⟩
      have hne : key ≠ id := fun heq => hkey (heq ▸ hid)
      have hneUsed : key ≠ used.id := fun heq => hkey (heq ▸ hused)
      exact (Table.find_put_of_ne hneUsed _ _).trans (Table.find_put_of_ne hne _ _)
    · refine ⟨fun _ _ => rfl, fun key hkey => ?_, rfl, fun h => h⟩
      have hne : key ≠ id := fun heq => hkey (heq ▸ hid)
      rw [List.mem_append, List.mem_singleton, or_iff_left hne]

/-- A path that is resolved is recorded under the identifier of its use. -/
theorem resolvePath (r : Resolver) {id : NodeId} (hid : id ∈ ids) (path : List String) :
    Keeps ids r (r.onScope (·.resolvePath id path)) := by
  rw [onScope, Scope.resolvePath]
  split
  · refine ⟨fun key hkey => ?_, fun _ _ => .rfl, rfl, fun h => h⟩
    have hne : key ≠ id := fun heq => hkey (heq ▸ hid)
    exact Table.find_put_of_ne hne _ _
  · exact refl r

/-- The first visit of a node records uses under identifiers of its outline only. -/
theorem enter (node : Node) (hids : node.outline.ids ⊆ ids) (control : Control) (r : Resolver) :
    Keeps ids r (Resolver.enter node control r).2 := by
  cases node with
  | declaration declaration => exact enterDeclaration r declaration
  | statement statement =>
    cases statement with
    | loop id pattern iterated block =>
      exact (refl r).aside rfl rfl rfl fun h => h.push.set pattern.name pattern.id
    | declaration | branch | expression | result | placeholder => exact refl r
  | expression expression =>
    cases expression with
    | identifier id used =>
      exact resolve r (hids List.mem_cons_self) (hids (List.mem_cons_of_mem _ List.mem_cons_self))
    | member id base name =>
      simp only [Resolver.enter]
      split
      · exact resolvePath r (hids List.mem_cons_self) _
      · exact refl r
    | binary | call | literal | placeholder => exact refl r
  | program | pattern | identifier | typeForm | literal | parameter | generic | case | argument =>
    exact refl r

/-- The second visit of a node records no use. -/
theorem leave (node : Node) (r : Resolver) : Keeps ids r (r.leave node) := by
  cases node with
  | declaration declaration => exact leaveDeclaration r declaration
  | statement statement =>
    cases statement with
    | loop id pattern iterated block =>
      exact (refl r).aside rfl rfl rfl ScopeStack.Distinct.pop
    | declaration | branch | expression | result | placeholder => exact refl r
  | program | expression | pattern | identifier | typeForm | literal | parameter | generic | case
  | argument => exact refl r

/-- A visit of a node records nothing under ids that do not stand below the node. -/
theorem visitAll (node : Node) (hids : node.outline.ids ⊆ ids) (control : Control) (r : Resolver) :
    Keeps ids r (visitAll node control r).2 := by
  rw [Resolver.visitAll, visit]
  split
  · exact leave node r
  · rw [if_neg (Option.some_ne_none node.id).symm]
    exact enter node hids control r

end Keeps

/-! ## The walk to a target -/

/-- The state of a walk that has reached its target. -/
def reach (r : Resolver) : Resolver := r.onScope fun scope => { scope with reachedTarget := true }

/-- A walk with a target stops when it comes to it, and does the same as one without a target
elsewhere. -/
theorem visit_stopsAt (target : NodeId) :
    Visitor.StopsAt target reach visitAll (visit (some target)) where
  there node control r h hfirst := by
    rw [visit, hfirst, if_neg Bool.false_ne_true, if_pos (congrArg some h.symm)]
    rfl
  elsewhere node hne := by
    have htarget : some target ≠ some node.id := fun heq => hne (Option.some.inj heq).symm
    funext control r
    rw [visitAll, visit, visit, if_neg htarget, if_neg (Option.some_ne_none node.id).symm]

end Resolver

/-- The walk over an identifier resolves it. -/
theorem Expression.tour_identifier (id : NodeId) (used : Identifier) (r : Resolver) :
    (Expression.identifier id used).outline.tour visitAll r = r.onScope (·.resolve id used) := rfl

section Resolve

variable {scope : Scope} {id : NodeId} {used : Identifier}

/-- A use that was not recorded before is recorded under both keys, and refers to what the name
has. -/
theorem Scope.find_resolve (hname : used.isPlaceholder = false)
    (hid : scope.identifiers.find id = none) (hused : scope.identifiers.find used.id = none)
    {key : NodeId} (hkey : key = id ∨ key = used.id) :
    (scope.resolve id used).identifiers.find key = scope.values.get? used.name := by
  rw [Scope.resolve, hname, if_neg Bool.false_ne_true]
  cases hvalue : scope.values.get? used.name with
  | none => rcases hkey with rfl | rfl <;> assumption
  | some pattern =>
    by_cases heq : key = used.id
    · rw [heq, Table.find_put_self]
    · rw [Table.find_put_of_ne heq, hkey.resolve_right heq, Table.find_put_self]

/-- A use that was not recorded before is unresolved when the name has nothing. -/
theorem Scope.mem_unresolved_resolve (hname : used.isPlaceholder = false)
    (hid : id ∉ scope.unresolved) :
    id ∈ (scope.resolve id used).unresolved ↔ scope.values.get? used.name = none := by
  rw [Scope.resolve, hname, if_neg Bool.false_ne_true]
  cases hvalue : scope.values.get? used.name with
  | none => simp
  | some pattern => simp [hid]

end Resolve

section Program

variable {program : Program} {site : Expression}

/-- The walk up to an expression and the walk over the program with another one in its place are in
one state there, and both record other ids nowhere else. -/
theorem Program.resolve_replace (distinct : program.outline.ids.Nodup)
    (hsite : .expression site ∈ program.nodes)
    (hbase : ∀ node ∈ program.nodes, node.base? ≠ some site)
    (hreached : (program.resolve (some site.id)).reachedTarget) (new : Expression) :
    ∃ hit last : Resolver, program.resolve (some site.id) = hit.reach.scope ∧
      Resolver.Keeps program.outline.ids {} hit ∧
      (program.replace site.id (.expression new)).resolve none = last.scope ∧
      Resolver.Keeps program.outline.ids (new.outline.tour visitAll hit) last := by
  -- the site is not at the base of a member, so that an identifier may stand in its place
  have hreplaceable : program.outline.Replaceable site.id := by
    refine ⟨fun node hnode heq => ?_, fun node hnode base hmember heq => ?_⟩
    · rw [Outline.eq_of_id_eq distinct hnode hsite heq]
      rfl
    · have hmem : .expression base ∈ program.nodes :=
        program.outline_faithful.preorder_subset hnode (Node.mem_preorder_of_base? hmember)
      cases Outline.eq_of_id_eq distinct hmem hsite heq
      exact hbase node hnode hmember
  have hkeeps : ∀ node ∈ program.outline.preorder, ∀ control r,
      Resolver.Keeps program.outline.ids r (visitAll node control r).2 := fun node hnode =>
    Resolver.Keeps.visitAll node (program.outline_faithful.ids_subset hnode)
  have hgoing : ({} : Control).stop = false := rfl
  -- the walk that stops and the walk that goes on are in step up to the site
  have hends := (program.placed new hreplaceable).walkPre_ends (Resolver.visit_stopsAt site.id)
    Resolver.visitAll_neverStops _ distinct hkeeps hgoing {}
  have hstopped : program.resolve (some site.id) =
      (program.outline.walkPre (Resolver.visit (some site.id)) {} {}).2.scope := rfl
  have hfull : (program.replace site.id (.expression new)).resolve none =
      ((program.replace site.id (.expression new)).outline.tour visitAll {}).scope :=
    congrArg Resolver.scope (Program.walk_eq_tour Resolver.visitAll_neverStops _ {})
  rw [hfull]
  rw [hstopped] at hreached ⊢
  generalize program.outline.walkPre (Resolver.visit (some site.id)) {} {} = stopped
    at hends hreached ⊢
  generalize (program.replace site.id (.expression new)).outline.tour visitAll {} = last
    at hends ⊢
  cases hends with
  | missed going kept => exact absurd (kept.reachedTarget.symm.trans hreached) Bool.false_ne_true
  | reached stopped found before kept => exact ⟨_, last, rfl, before, rfl, kept⟩

/-- In the place of an expression that the walk reaches, an identifier refers to what is listed
there under its name, and to nothing when the name is not listed. -/
theorem Program.suggestions_resolve (distinct : program.outline.ids.Nodup)
    (hsite : .expression site ∈ program.nodes)
    (hbase : ∀ node ∈ program.nodes, node.base? ≠ some site)
    (hreached : (program.resolve (some site.id)).reachedTarget)
    {id : NodeId} {used : Identifier} (hid : id ∉ program.outline.ids)
    (hused : used.id ∉ program.outline.ids) (hname : used.isPlaceholder = false) :
    let listed := (program.resolve (some site.id)).values.flattened
    let written := (program.replace site.id (.expression (.identifier id used))).resolve none
    (∀ pattern, written.patternFor id = some pattern ↔ (used.name, pattern) ∈ listed) ∧
      (∀ pattern, written.patternFor used.id = some pattern ↔ (used.name, pattern) ∈ listed) ∧
      (id ∈ written.unresolved ↔ ∀ pattern, (used.name, pattern) ∉ listed) := by
  obtain ⟨hit, last, hstopped, hbefore, hfull, hafter⟩ :=
    Program.resolve_replace distinct hsite hbase hreached (.identifier id used)
  rw [Expression.tour_identifier] at hafter
  -- at the site, the list is what a look-up gives, name by name
  have hlisted : ∀ pattern, (used.name, pattern) ∈ hit.scope.values.flattened ↔
      hit.scope.values.get? used.name = some pattern := fun pattern =>
    ScopeStack.mem_flattened_iff (hbefore.distinct ScopeStack.distinct_empty)
  have hfresh : ∀ key ∉ program.outline.ids, hit.scope.identifiers.find key = none :=
    hbefore.identifiers
  -- neither key is written before or after the identifier
  have hfind : ∀ key ∉ program.outline.ids, key = id ∨ key = used.id →
      last.scope.patternFor key = hit.scope.values.get? used.name := fun key hkey heq =>
    (hafter.identifiers key hkey).trans
      (Scope.find_resolve hname (hfresh id hid) (hfresh used.id hused) heq)
  have hunresolved : id ∈ last.scope.unresolved ↔ hit.scope.values.get? used.name = none :=
    (hafter.unresolved id hid).trans (Scope.mem_unresolved_resolve hname
      fun h => List.not_mem_nil ((hbefore.unresolved id hid).1 h))
  have hvalues : (program.resolve (some site.id)).values = hit.scope.values := by
    rw [hstopped]
    rfl
  simp only [hvalues, hfull, hfind id hid (.inl rfl), hfind used.id hused (.inr rfl), hlisted,
    hunresolved, Option.eq_none_iff_forall_ne_some, implies_true, ne_eq, and_self]

/-- Written in the loop, `x` is the parameter and `y` is the pattern of the loop; what a namespace
declares afterwards is not listed. -/
theorem suggestions_resolve_shadowing :
    let written := fun name => (shadowingProgram.replace (.ofNat 18)
      (.expression (.identifier (.ofNat 50) ⟨.ofNat 51, name, false⟩))).resolve none
    (written "x").patternFor (.ofNat 50) = some (.ofNat 11) ∧
      (written "y").patternFor (.ofNat 51) = some (.ofNat 14) ∧
      .ofNat 50 ∈ (written "z").unresolved := by
  have hsite : .expression (.identifier (.ofNat 18) ⟨.ofNat 19, "x", false⟩) ∈
      shadowingProgram.nodes := List.mem_of_getElem? (i := 18) rfl
  have hbase : ∀ node ∈ shadowingProgram.nodes,
      node.base? ≠ some (.identifier (.ofNat 18) ⟨.ofNat 19, "x", false⟩) := by
    have hids : ∀ node ∈ shadowingProgram.nodes,
        node.base?.map Expression.id ≠ some (.ofNat 18) := by decide
    exact fun node hnode heq => hids node hnode (congrArg (Option.map Expression.id) heq)
  have hid : .ofNat 50 ∉ shadowingProgram.outline.ids := by decide
  have hused : ∀ name, (⟨.ofNat 51, name, false⟩ : Identifier).id ∉ shadowingProgram.outline.ids :=
    fun name => (by decide : .ofNat 51 ∉ shadowingProgram.outline.ids)
  have hsuggested := fun name => Program.suggestions_resolve (by decide) hsite hbase (by decide) hid
    (hused name) rfl
  have hlisted : (shadowingProgram.resolve (some (.ofNat 18))).values.flattened =
      [("f", .ofNat 8), ("x", .ofNat 11), ("y", .ofNat 14)] := by decide
  refine ⟨((hsuggested "x").1 _).2 (by decide), ((hsuggested "y").2.1 _).2 (by decide),
    (hsuggested "z").2.2.2 fun pattern hmem => ?_⟩
  rw [Expression.id, hlisted] at hmem
  simp at hmem

end Program

end TreeLang
