import Mathlib.Data.List.Induction
import Mathlib.Data.List.Nodup
import TreeLang.Proofs.Term.Generics

/-!
# Numbered names

A generic parameter is named by its written name and a number that is given out once. Two such names
are different, unless one of the written names is the other one with digits after it: then these can
be taken for the first digits of the other number.
-/

namespace TreeLang

/-- No name is another one with the digits of a positive number after it. -/
def Unambiguous (names : List String) : Prop :=
  ∀ a ∈ names, ∀ b ∈ names, ∀ n, 0 < n → a ≠ b ++ toString n

/-- Digits that begin the digits of a number are those of a number themselves. -/
theorem exists_eq_toDigits_of_append {first last : List Char} (hfirst : first ≠ []) {n : Nat}
    (hn : 0 < n) (h : first ++ last = Nat.toDigits 10 n) :
    ∃ m, 0 < m ∧ first = Nat.toDigits 10 m := by
  induction last using List.reverseRecOn generalizing n with
  | nil => exact ⟨n, hn, by rwa [List.append_nil] at h⟩
  | append_singleton rest c ih =>
    -- there are two digits at least, so the number without the last one is still positive
    have hbase : 10 ≤ n := by
      by_contra hlt
      rw [Nat.toDigits_of_lt_base (Nat.lt_of_not_le hlt)] at h
      have hlength := congrArg List.length h
      have hpos := List.length_pos_of_ne_nil hfirst
      simp only [List.length_append, List.length_singleton] at hlength
      omega
    rw [Nat.toDigits_of_base_le (by decide) hbase, ← List.append_assoc] at h
    exact ih (Nat.div_pos hbase (by decide)) (List.append_inj' h rfl).1

namespace Unambiguous

variable {names : List String} {a b : String} {m n : Nat}

/-- Fewer names are unambiguous as well. -/
theorem mono {others : List String} (h : Unambiguous names) (hsubset : others ⊆ names) :
    Unambiguous others :=
  fun a ha b hb => h a (hsubset ha) b (hsubset hb)

/-- Names of which none ends with a digit are unambiguous. -/
theorem of_last (h : ∀ a ∈ names, a.toList.getLast?.all fun c => !c.isDigit) :
    Unambiguous names := by
  rintro a ha b - n - rfl
  have hdigits : Nat.toDigits 10 n ≠ [] := List.ne_nil_of_length_pos Nat.length_toDigits_pos
  have hlast := h _ ha
  rw [String.toList_append, Nat.toString_eq_repr, Nat.toList_repr,
    List.getLast?_append_of_ne_nil _ hdigits, List.getLast?_eq_some_getLast hdigits,
    Option.all_some] at hlast
  have hdigit : ((Nat.toDigits 10 n).getLast hdigits).isDigit :=
    Nat.isDigit_of_mem_toDigits (by decide) (by decide) (List.getLast_mem hdigits)
  rw [hdigit] at hlast
  cases hlast

/-- Of two numbered names that are equal, one has all of the other's written name and more. -/
theorem number_eq_of_append (h : Unambiguous names) (ha : a ∈ names) (hb : b ∈ names)
    {extra : List Char} (hname : b.toList = a.toList ++ extra) (hm : 0 < m)
    (hdigits : Nat.toDigits 10 m = extra ++ Nat.toDigits 10 n) : m = n := by
  by_cases hextra : extra = []
  · rw [hextra, List.nil_append] at hdigits
    exact NameSupply.toString_injective (congrArg String.ofList hdigits)
  · obtain ⟨k, hk, rfl⟩ := exists_eq_toDigits_of_append hextra hm hdigits.symm
    have heq : b = a ++ toString k := String.toList_injective (by
      rw [hname, String.toList_append, Nat.toString_eq_repr, Nat.toList_repr])
    exact absurd heq (h b hb a ha k hk)

/-- Different numbers make different names. -/
theorem numbered_ne (h : Unambiguous names) (ha : a ∈ names) (hb : b ∈ names) (hm : 0 < m)
    (hn : 0 < n) (hne : m ≠ n) : a ++ toString m ≠ b ++ toString n := by
  intro heq
  have hchars := congrArg String.toList heq
  simp only [String.toList_append, Nat.toString_eq_repr, Nat.toList_repr] at hchars
  rcases List.append_eq_append_iff.1 hchars with ⟨extra, hname, hdigits⟩ | ⟨extra, hname, hdigits⟩
  · exact hne (h.number_eq_of_append ha hb hname hm hdigits)
  · exact hne (h.number_eq_of_append hb ha hname hn hdigits).symm

end Unambiguous

/-! ## Runs of a supply -/

/-- A written name with the number that makes it the name of a generic parameter. -/
structure NumberedName where
  written : String
  number : Nat

/-- The name itself. -/
def NumberedName.text (name : NumberedName) : String := name.written ++ toString name.number

/-- What a name supply is asked for. -/
inductive NameRequest where
  | evar
  | generic (written : String)

/-- The written name of a generic parameter that is asked for. -/
def NameRequest.written? : NameRequest → Option String
  | .evar => none
  | .generic written => some written

namespace NameSupply

/-- The names that a supply gives to generic parameters, when it answers some requests in order. -/
def genericNames : List NameRequest → NameSupply → List String
  | [], _ => []
  | .evar :: rest, names => genericNames rest names.evar.2
  | .generic written :: rest, names =>
    (names.genericName written).1 :: genericNames rest (names.genericName written).2

/-- The numbers of the names increase, between what is issued in two states of a supply. -/
structure Numbers (before after : NameSupply) (given : List NumberedName) : Prop where
  le : before.issued ≤ after.issued
  between : ∀ name ∈ given, before.issued < name.number ∧ name.number ≤ after.issued
  increasing : given.Pairwise fun first second => first.number < second.number

variable {names names₁ names₂ : NameSupply} {given given₁ : List NumberedName}

namespace Numbers

/-- A run that gives out no names has given out names with numbers of its own. -/
theorem nil (h : names.issued ≤ names₁.issued) : Numbers names names₁ [] := ⟨h, nofun, .nil⟩

/-- Names that are given out by two runs, one after the other, have different numbers. -/
theorem append (h : Numbers names names₁ given) (h₁ : Numbers names₁ names₂ given₁) :
    Numbers names names₂ (given ++ given₁) where
  le := Nat.le_trans h.le h₁.le
  between := List.forall_mem_append.2
    ⟨fun name hname => ⟨(h.between name hname).1, Nat.le_trans (h.between name hname).2 h₁.le⟩,
      fun name hname =>
        ⟨Nat.lt_of_le_of_lt h.le (h₁.between name hname).1, (h₁.between name hname).2⟩⟩
  increasing := List.pairwise_append.2 ⟨h.increasing, h₁.increasing,
    fun first hfirst second hsecond =>
      Nat.lt_of_le_of_lt (h.between first hfirst).2 (h₁.between second hsecond).1⟩

/-- A generic parameter takes the next number. -/
theorem genericName (written : String) (names : NameSupply) :
    Numbers names (names.genericName written).2 [⟨written, names.issued + 1⟩] :=
  ⟨Nat.le_succ _, List.forall_mem_singleton.2 ⟨Nat.lt_succ_self _, Nat.le_refl _⟩,
    List.pairwise_singleton _ _⟩

/-- Names with such numbers are pairwise different when the written names are unambiguous. -/
theorem nodup (h : Numbers names names₁ given)
    (hwritten : Unambiguous (given.map NumberedName.written)) :
    (given.map NumberedName.text).Nodup := by
  refine List.pairwise_map.2 (h.increasing.imp_of_mem ?_)
  intro first second hfirst hsecond hlt
  have hpos : 0 < first.number := Nat.zero_lt_of_lt (h.between first hfirst).1
  exact hwritten.numbered_ne (List.mem_map_of_mem hfirst) (List.mem_map_of_mem hsecond) hpos
    (Nat.lt_trans hpos hlt) (Nat.ne_of_lt hlt)

end Numbers

/-- A run of a supply numbers the written names in the order of the requests. -/
theorem genericNames_numbered (requests : List NameRequest) (names : NameSupply) :
    ∃ given, Numbers names ⟨names.issued + requests.length⟩ given ∧
      given.map NumberedName.written = requests.filterMap NameRequest.written? ∧
      given.map NumberedName.text = genericNames requests names := by
  induction requests generalizing names with
  | nil => exact ⟨[], .nil (Nat.le_refl _), rfl, rfl⟩
  | cons request rest ih =>
    rw [List.length_cons, Nat.add_comm rest.length, ← Nat.add_assoc]
    cases request with
    | evar =>
      obtain ⟨given, hnumbers, hwritten, htexts⟩ := ih names.evar.2
      have hevar : Numbers names names.evar.2 [] := .nil (Nat.le_succ _)
      exact ⟨given, hevar.append hnumbers, hwritten, htexts⟩
    | generic written =>
      obtain ⟨given, hnumbers, hwritten, htexts⟩ := ih (names.genericName written).2
      refine ⟨⟨written, names.issued + 1⟩ :: given,
        (Numbers.genericName written names).append hnumbers, ?_, ?_⟩
      · rw [List.map_cons, hwritten]
        rfl
      · rw [List.map_cons, htexts]
        rfl

end NameSupply

end TreeLang
