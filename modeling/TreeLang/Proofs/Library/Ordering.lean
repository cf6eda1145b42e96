import Mathlib.Data.List.Forall2
import Mathlib.Data.List.Sort
import Mathlib.Data.String.Basic
import TreeLang.Proofs.Library.Building
import TreeLang.Proofs.Library.Reachability

/-!
# The order depends on names only

Two graphs that hold the same names and record the same imports are searched in step, whatever the
numbers of their libraries are: at each point, both searches are at libraries of one name. So they
come to the same order of names, or to the same cycle.
-/

namespace TreeLang

namespace LibraryGraph

variable {graph graph' : LibraryGraph}

/-- The names in the order of a sorted graph, or those on a cycle of imports. -/
def sortedNames (graph : LibraryGraph) : Except (List String) (List String) :=
  graph.sorted.map (List.map graph.nameOf)

/-- Two graphs hold the same names and record the same imports. -/
structure Agrees (graph graph' : LibraryGraph) : Prop where
  mem_names_iff : ∀ name, name ∈ graph.names ↔ name ∈ graph'.names
  imports_iff : ∀ a b, graph.Imports a b ↔ graph'.Imports a b

/-- Graphs that agree with one graph agree with each other. -/
theorem Agrees.trans {graph'' : LibraryGraph} (h : graph.Agrees graph')
    (h' : graph'.Agrees graph'') : graph.Agrees graph'' :=
  ⟨fun name => (h.mem_names_iff name).trans (h'.mem_names_iff name),
    fun a b => (h.imports_iff a b).trans (h'.imports_iff a b)⟩

/-- Graphs that agree have the same number of libraries. -/
theorem Agrees.size_eq (h : graph.Agrees graph') (hgraph : graph.WellFormed)
    (hgraph' : graph'.WellFormed) : graph.size = graph'.size := by
  have hperm : graph.names.Perm graph'.names :=
    (List.perm_ext_iff_of_nodup hgraph.names_nodup hgraph'.names_nodup).2 h.mem_names_iff
  rw [← length_names, ← length_names, hperm.length_eq]

/-! ## Imports recorded once -/

/-- Recording an import that is there already adds nothing. -/
theorem importsOf_depend_nodup {importer imported : Nat}
    (h : ∀ number, (graph.importsOf number).Nodup) (number : Nat) :
    ((graph.depend importer imported).importsOf number).Nodup := by
  by_cases hself : importer = imported
  · rw [LibraryGraph.depend, if_pos hself]
    exact h number
  · rw [depend_eq graph hself, importsOf_eq, List.getElem?_modify]
    have hnumber := h number
    rw [importsOf_eq] at hnumber
    cases hentry : graph.libraries[number]? with
    | none => exact List.nodup_nil
    | some library =>
      rw [hentry] at hnumber
      by_cases hplace : importer = number
      · simp only [hplace, if_true]
        change (recording imported library).imports.Nodup
        rw [recording]
        split
        · exact hnumber
        · next hnew =>
          exact hnumber.append (List.nodup_singleton _) (List.disjoint_singleton.2 hnew)
      · simp only [hplace, if_false]
        exact hnumber

/-- Calls record each import once. -/
theorem Built.importsOf_nodup (h : graph.Built) (number : Nat) :
    (graph.importsOf number).Nodup := by
  induction h generalizing number with
  | empty => exact List.nodup_nil
  | add _ name ih =>
    rw [importsOf_add]
    exact ih number
  | depend _ _ _ ih => exact importsOf_depend_nodup ih number

/-! ## Namesakes -/

/-- Libraries of two graphs that have one name. -/
structure Namesakes (graph graph' : LibraryGraph) (a b : Nat) : Prop where
  lt_size : a < graph.size
  lt_size' : b < graph'.size
  name_eq : graph.nameOf a = graph'.nameOf b

/-- In well-formed graphs a library has one namesake at most, in either direction. -/
theorem Namesakes.biUnique (hgraph : graph.WellFormed) (hgraph' : graph'.WellFormed) :
    Relator.BiUnique (Namesakes graph graph') :=
  ⟨fun _ _ _ h h' => hgraph.nameOf_inj h.lt_size h'.lt_size (h.name_eq.trans h'.name_eq.symm),
    fun _ _ _ h h' => hgraph'.nameOf_inj h.lt_size' h'.lt_size' (h.name_eq.symm.trans h'.name_eq)⟩

/-- Namesakes have the same names, one for one. -/
theorem map_nameOf_eq {as bs : List Nat} (h : List.Forall₂ (Namesakes graph graph') as bs) :
    as.map graph.nameOf = bs.map graph'.nameOf := by
  induction h with
  | nil => rfl
  | cons hab _ ih => rw [List.map_cons, List.map_cons, hab.name_eq, ih]

/-- Libraries with the same names, one for one, are namesakes. -/
theorem forall₂_namesakes {as bs : List Nat} (ha : ∀ a ∈ as, a < graph.size)
    (hb : ∀ b ∈ bs, b < graph'.size) (h : as.map graph.nameOf = bs.map graph'.nameOf) :
    List.Forall₂ (Namesakes graph graph') as bs := by
  induction as generalizing bs with
  | nil =>
    obtain rfl := List.map_eq_nil_iff.1 h.symm
    exact .nil
  | cons a as ih =>
    obtain ⟨b, bs, rfl, hname, hrest⟩ := List.map_eq_cons_iff.1 h.symm
    obtain ⟨ha, has⟩ := List.forall_mem_cons.1 ha
    obtain ⟨hb, hbs⟩ := List.forall_mem_cons.1 hb
    exact .cons ⟨ha, hb, hname.symm⟩ (ih has hbs hrest.symm)

/-! ## Libraries by name -/

/-- Libraries in the order of their names, as names. -/
theorem map_nameOf_byName (graph : LibraryGraph) (numbers : List Nat) :
    (graph.byName numbers).map graph.nameOf =
      (numbers.map graph.nameOf).mergeSort fun a b => a ≤ b :=
  List.map_mergeSort fun _ _ _ _ => rfl

/-- Names in order are determined by what they are. -/
theorem mergeSort_eq_of_perm {names names' : List String} (h : names.Perm names') :
    (names.mergeSort fun a b => a ≤ b) = names'.mergeSort fun a b => a ≤ b := by
  have hperm := (List.mergeSort_perm names fun a b => a ≤ b).trans
    (h.trans (List.mergeSort_perm names' fun a b => a ≤ b).symm)
  exact hperm.eq_of_pairwise' (List.pairwise_mergeSort' (· ≤ ·) names)
    (List.pairwise_mergeSort' (· ≤ ·) names')

/-- Libraries of the same names, each named once, are visited in step. -/
theorem forall₂_byName (hgraph : graph.WellFormed) (hgraph' : graph'.WellFormed)
    {as bs : List Nat} (ha : ∀ a ∈ as, a < graph.size) (hb : ∀ b ∈ bs, b < graph'.size)
    (has : as.Nodup) (hbs : bs.Nodup)
    (hnames : ∀ name, name ∈ as.map graph.nameOf ↔ name ∈ bs.map graph'.nameOf) :
    List.Forall₂ (Namesakes graph graph') (graph.byName as) (graph'.byName bs) := by
  have hperm : (as.map graph.nameOf).Perm (bs.map graph'.nameOf) := by
    refine (List.perm_ext_iff_of_nodup ?_ ?_).2 hnames
    · exact has.map_on fun a hmem b hmem' => hgraph.nameOf_inj (ha a hmem) (ha b hmem')
    · exact hbs.map_on fun a hmem b hmem' => hgraph'.nameOf_inj (hb a hmem) (hb b hmem')
  refine forall₂_namesakes (fun a hmem => ha a ((graph.mem_byName as).1 hmem))
    (fun b hmem => hb b ((graph'.mem_byName bs).1 hmem)) ?_
  rw [map_nameOf_byName, map_nameOf_byName, mergeSort_eq_of_perm hperm]

/-- The names that a library imports. -/
theorem mem_map_importsOf (hgraph : graph.WellFormed) {number : Nat} (hlt : number < graph.size)
    {name : String} : name ∈ (graph.importsOf number).map graph.nameOf ↔
      graph.Imports (graph.nameOf number) name := by
  rw [List.mem_map]
  constructor
  · rintro ⟨imported, hmem, rfl⟩
    exact ⟨number, imported, hmem, rfl, rfl⟩
  · rintro ⟨importer, imported, hmem, hname, rfl⟩
    obtain rfl := hgraph.nameOf_inj (lt_size_of_mem_importsOf hmem) hlt hname
    exact ⟨imported, hmem, rfl⟩

/-- Namesakes import namesakes. -/
theorem Agrees.forall₂_imports (h : graph.Agrees graph') (hgraph : graph.Built)
    (hgraph' : graph'.Built) {a b : Nat} (hab : Namesakes graph graph' a b) :
    List.Forall₂ (Namesakes graph graph') (graph.byName (graph.importsOf a))
      (graph'.byName (graph'.importsOf b)) := by
  refine forall₂_byName hgraph.wellFormed hgraph'.wellFormed
    (hgraph.wellFormed.lt_of_mem_importsOf a) (hgraph'.wellFormed.lt_of_mem_importsOf b)
    (hgraph.importsOf_nodup a) (hgraph'.importsOf_nodup b) fun name => ?_
  rw [mem_map_importsOf hgraph.wellFormed hab.lt_size,
    mem_map_importsOf hgraph'.wellFormed hab.lt_size', hab.name_eq, h.imports_iff]

/-! ## Searches in step -/

/-- Two searches report one cycle, or they have visited namesakes one after the other. -/
inductive SameOutcome (graph graph' : LibraryGraph) :
    Except (List String) (List Nat) → Except (List String) (List Nat) → Prop
  | ok {order order' : List Nat} (h : List.Forall₂ (Namesakes graph graph') order order') :
    SameOutcome graph graph' (.ok order) (.ok order')
  | error (path : List String) : SameOutcome graph graph' (.error path) (.error path)

/-- Searches that visit namesakes in step have the same outcome, the same cycle by name if they
fail. -/
theorem SameOutcome.foldlM {visit visit' : List Nat → Nat → Except (List String) (List Nat)}
    (hvisit : ∀ a b, Namesakes graph graph' a b → ∀ order order',
      List.Forall₂ (Namesakes graph graph') order order' →
        SameOutcome graph graph' (visit order a) (visit' order' b))
    {as bs order order' : List Nat} (h : List.Forall₂ (Namesakes graph graph') as bs)
    (horder : List.Forall₂ (Namesakes graph graph') order order') :
    SameOutcome graph graph' (as.foldlM visit order) (bs.foldlM visit' order') := by
  induction h generalizing order order' with
  | nil => exact .ok horder
  | @cons a b as bs hab _ ih =>
    have hfirst := hvisit a b hab order order' horder
    rw [List.foldlM_cons, List.foldlM_cons]
    generalize visit order a = first at hfirst
    generalize visit' order' b = first' at hfirst
    cases hfirst with
    | ok hnext => exact ih hnext
    | error path => exact .error path

/-- Where the paths are in step, so are the cycles that they close. -/
theorem cycleTo_eq_of_namesakes (hgraph : graph.WellFormed) (hgraph' : graph'.WellFormed)
    {path path' : List Nat} (hpath : List.Forall₂ (Namesakes graph graph') path path') {a b : Nat}
    (hab : Namesakes graph graph' a b) : graph.cycleTo path a = graph'.cycleTo path' b := by
  have hdrop : (path.dropWhile (· ≠ a)).map graph.nameOf =
      (path'.dropWhile (· ≠ b)).map graph'.nameOf := by
    induction hpath with
    | nil => rfl
    | @cons c d path path' hcd hrest ih =>
      have hiff : c = a ↔ d = b :=
        Relator.rel_eq (Namesakes.biUnique hgraph hgraph') hcd hab
      by_cases hc : c = a
      · have hd : d = b := hiff.1 hc
        have hwhole := map_nameOf_eq (.cons hcd hrest)
        simpa [List.dropWhile_cons, hc, hd] using hwhole
      · have hd : d ≠ b := fun hd => hc (hiff.2 hd)
        simpa [List.dropWhile_cons, hc, hd] using ih
  rw [cycleTo, cycleTo, List.map_append, List.map_append, hdrop, List.map_singleton,
    List.map_singleton, hab.name_eq]

/-- Whether a library is done or on the path does not depend on its number. -/
theorem SameOutcome.ite (hgraph : graph.WellFormed) (hgraph' : graph'.WellFormed)
    {path path' order order' : List Nat}
    (hpath : List.Forall₂ (Namesakes graph graph') path path')
    (horder : List.Forall₂ (Namesakes graph graph') order order') {a b : Nat}
    (hab : Namesakes graph graph' a b) {rest rest' : Except (List String) (List Nat)}
    (hrest : SameOutcome graph graph' rest rest') :
    SameOutcome graph graph'
      (if a ∈ order then .ok order
        else if a ∈ path then .error (graph.cycleTo path a) else rest)
      (if b ∈ order' then .ok order'
        else if b ∈ path' then .error (graph'.cycleTo path' b) else rest') := by
  have hunique := Namesakes.biUnique hgraph hgraph'
  have hdone : a ∈ order ↔ b ∈ order' := List.rel_mem hunique hab horder
  have honPath : a ∈ path ↔ b ∈ path' := List.rel_mem hunique hab hpath
  by_cases ha : a ∈ order
  · rw [if_pos ha, if_pos (hdone.1 ha)]
    exact .ok horder
  rw [if_neg ha, if_neg (mt hdone.2 ha)]
  by_cases ha' : a ∈ path
  · rw [if_pos ha', if_pos (honPath.1 ha'), cycleTo_eq_of_namesakes hgraph hgraph' hpath hab]
    exact .error _
  · rw [if_neg ha', if_neg (mt honPath.2 ha')]
    exact hrest

/-- Visits of namesakes come to the same outcome. -/
theorem Agrees.sameOutcome_visit (h : graph.Agrees graph') (hgraph : graph.Built)
    (hgraph' : graph'.Built) {fuel : Nat} {path path' order order' : List Nat}
    (hpath : List.Forall₂ (Namesakes graph graph') path path')
    (horder : List.Forall₂ (Namesakes graph graph') order order') {a b : Nat}
    (hab : Namesakes graph graph' a b) :
    SameOutcome graph graph' (graph.visit fuel path order a)
      (graph'.visit fuel path' order' b) := by
  induction fuel generalizing path path' order order' a b with
  | zero =>
    rw [visit, visit]
    exact .ite hgraph.wellFormed hgraph'.wellFormed hpath horder hab (.ok horder)
  | succ fuel ih =>
    have hpath' : List.Forall₂ (Namesakes graph graph') (path ++ [a]) (path' ++ [b]) :=
      List.rel_append hpath (.cons hab .nil)
    have himports := SameOutcome.foldlM (fun c d hcd _ _ horder => ih hpath' horder hcd)
      (h.forall₂_imports hgraph hgraph' hab) horder
    rw [visit, visit]
    refine .ite hgraph.wellFormed hgraph'.wellFormed hpath horder hab ?_
    generalize (graph.byName (graph.importsOf a)).foldlM (graph.visit fuel (path ++ [a])) order =
      outcome at himports ⊢
    generalize (graph'.byName (graph'.importsOf b)).foldlM
      (graph'.visit fuel (path' ++ [b])) order' = outcome' at himports ⊢
    cases himports with
    | ok hnext => exact .ok (List.rel_append hnext (.cons hab .nil))
    | error path => exact .error path

/-- The order of the names, or the cycle, depends on what a graph holds and records, and not on the
calls that built it. -/
theorem Built.sortedNames_eq (hgraph : graph.Built) (hgraph' : graph'.Built)
    (h : graph.Agrees graph') : graph.sortedNames = graph'.sortedNames := by
  -- both graphs start from all their numbers, in the order of the names
  have hall : List.Forall₂ (Namesakes graph graph') (graph.byName (List.range graph.size))
      (graph'.byName (List.range graph'.size)) := by
    refine forall₂_byName hgraph.wellFormed hgraph'.wellFormed (fun _ => List.mem_range.1)
      (fun _ => List.mem_range.1) List.nodup_range List.nodup_range fun name => ?_
    have hnames (graph : LibraryGraph) :
        name ∈ (List.range graph.size).map graph.nameOf ↔ name ∈ graph.names := by
      simp only [List.mem_map, List.mem_range]
      constructor
      · rintro ⟨number, hlt, rfl⟩
        exact nameOf_mem_names hlt
      · exact exists_of_mem_names
    rw [hnames, hnames, h.mem_names_iff]
  have hsize := h.size_eq hgraph.wellFormed hgraph'.wellFormed
  -- the searches go through namesakes, step for step
  have houtcome : SameOutcome graph graph' graph.sorted graph'.sorted := by
    rw [hsize] at hall
    rw [sorted, sorted, hsize]
    exact SameOutcome.foldlM
      (fun a b hab _ _ horder => h.sameOutcome_visit hgraph hgraph' .nil horder hab) hall .nil
  rw [sortedNames, sortedNames]
  generalize graph.sorted = outcome at houtcome
  generalize graph'.sorted = outcome' at houtcome
  cases houtcome with
  | ok horder => exact congrArg Except.ok (map_nameOf_eq horder)
  | error path => rfl

end LibraryGraph

end TreeLang
