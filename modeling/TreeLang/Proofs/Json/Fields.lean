import Mathlib.Data.List.Nodup
import Mathlib.Logic.Function.Basic
import TreeLang.Json.Fields

/-!
# Reading what was written

An object whose members are the fields of a record, each once and in any order, is read as that
record, and with a tag in front of them as a variant. What a field is written with is found under
its name.
-/

namespace TreeLang.Json

/-! ## Depths -/

/-- The depth of several values is that of the deepest one. -/
theorem depths_le_iff {items : List Json} {n : Nat} :
    depths items ≤ n ↔ ∀ item ∈ items, item.depth ≤ n := by
  induction items with
  | nil => simp [depths]
  | cons item rest ih => rw [depths, Nat.max_le, ih, List.forall_mem_cons]

/-- The depth of the members of an object is that of the deepest value. -/
theorem memberDepths_le_iff {members : Fields} {n : Nat} :
    memberDepths members ≤ n ↔ ∀ member ∈ members, member.2.depth ≤ n := by
  induction members with
  | nil => simp [memberDepths]
  | cons member rest ih => rw [memberDepths, Nat.max_le, ih, List.forall_mem_cons]

/-- Every value has a depth of its own. -/
theorem depth_pos (json : Json) : 0 < json.depth := by
  cases json <;> simp [depth]

/-- The items of an array are one level less deep. -/
theorem depth_arr_le_succ {items : List Json} {n : Nat} :
    (arr items).depth ≤ n + 1 ↔ ∀ item ∈ items, item.depth ≤ n := by
  rw [depth, Nat.add_le_add_iff_right, depths_le_iff]

/-- The members of an object are one level less deep. -/
theorem depth_obj_le_succ {members : Fields} {n : Nat} :
    (obj members).depth ≤ n + 1 ↔ members.Forall (·.2.depth ≤ n) := by
  rw [depth, Nat.add_le_add_iff_right, memberDepths_le_iff, List.forall_iff_forall_mem]

/-! ## Records and variants -/

/-- Members of one name are counted the same way as names. -/
theorem length_filter_eq_count (name : String) (members : Fields) :
    (members.filter (·.1 = name)).length = (members.map Prod.fst).count name := by
  rw [List.count_eq_countP, List.countP_map, List.countP_eq_length_filter]
  congr 2

/-- An object without repeated names is read as the record that it was written for. -/
theorem record?_obj {members : Fields} (distinct : (members.map Prod.fst).Nodup)
    (names : List String) : record? names (obj members) = some members := by
  have honce : givenOnce names members = true := by
    refine List.all_eq_true.2 fun name _ => decide_eq_true ?_
    rw [length_filter_eq_count]
    exact List.nodup_iff_count_le_one.1 distinct name
  rw [record?, if_pos honce]

/-- The kinds are apart from their tag: no kind has two fields of one name, or one with the name of
the tag. -/
abbrev KindsApart (kinds : List Kind) : Prop := ∀ kind ∈ kinds, ("kind" :: kind.2).Nodup

/-- A tag with the fields of its kind is read as that variant. -/
theorem variant?_obj {kinds : List Kind} (apart : KindsApart kinds) {kind : String}
    {members : Fields} (hkind : kinds.find? (·.1 = kind) = some (kind, members.map Prod.fst))
    (nested : Bool) :
    variant? kinds nested (obj (("kind", str kind) :: members)) = some (kind, members) := by
  obtain ⟨htag, hdistinct⟩ := List.nodup_cons.1 (apart _ (List.mem_of_find?_eq_some hkind))
  have hother : ∀ member ∈ members, member.1 ≠ "kind" :=
    fun member hmem heq => htag (heq ▸ List.mem_map_of_mem hmem)
  have htags : (("kind", str kind) :: members).filter (·.1 = "kind") = [("kind", str kind)] := by
    rw [List.filter_cons_of_pos (by simp), List.filter_eq_nil_iff.2 (by simpa using hother)]
  have hfields : (("kind", str kind) :: members).filter (·.1 ≠ "kind") = members := by
    rw [List.filter_cons_of_neg (by simp), List.filter_eq_self.2 (by simpa using hother)]
  simp only [variant?, htags, kind?, hkind, hfields, record?_obj hdistinct, Option.bind_eq_bind,
    Option.bind_some]

/-! ## Fields -/

/-- Members are looked up from the front. -/
@[simp] theorem Fields.find?_cons (fields : Fields) (name other : String) (value : Json) :
    Fields.find? ((name, value) :: fields) other =
      if name = other then some value else fields.find? other := by
  by_cases h : name = other <;> simp [Fields.find?, h]

/-! ## Values of one type -/

/-- A text is read back. -/
@[simp] theorem text?_str (text : String) : text? (str text) = some text := rfl

/-- A truth value is read back. -/
@[simp] theorem flag?_bool (value : Bool) : flag? (bool value) = some value := rfl

/-- A number is read back. -/
@[simp] theorem number?_real (value : Float) : number? (real value) = some value := rfl

/-- An identifier is read back from its number. -/
@[simp] theorem nodeId?_ofNodeId (id : NodeId) : nodeId? (ofNodeId id) = some id := by
  simp [nodeId?, ofNodeId, NodeId.ofNat?, id.value_lt]

/-- Encoding a list of values one by one encodes the list. -/
theorem arr_eq_list {encode : α → Json} {encodeAll : List α → List Json}
    (nil : encodeAll [] = [])
    (cons : ∀ a rest, encodeAll (a :: rest) = encode a :: encodeAll rest) (values : List α) :
    arr (encodeAll values) = list encode values := by
  induction values with
  | nil => rw [nil, list, List.map_nil]
  | cons a rest ih =>
    rw [cons, arr.inj ih]
    rfl

/-- The decoder gives back what was encoded, down to a depth. -/
def ReadsBack (n : Nat) (encode : α → Json) (decode : Json → Option α) : Prop :=
  ∀ a, (encode a).depth ≤ n → decode (encode a) = some a

namespace ReadsBack

variable {n : Nat} {encode : α → Json} {decode : Json → Option α}

/-- Nothing has the depth zero. -/
theorem zero : ReadsBack 0 encode decode :=
  fun a hdepth => absurd (encode a).depth_pos (Nat.not_lt.2 hdepth)

/-- Lists are read back when their items are. -/
theorem list (h : ReadsBack n encode decode) : ReadsBack n (list encode) (list? decode) := by
  intro values hdepth
  have hitems : ∀ a ∈ values, (encode a).depth ≤ n := by
    have hall := depth_arr_le_succ.1 (Nat.le_succ_of_le hdepth)
    exact List.forall_mem_map.1 hall
  clear hdepth
  induction values with
  | nil => rfl
  | cons a rest ih =>
    obtain ⟨ha, hrest⟩ := List.forall_mem_cons.1 hitems
    have htail : (rest.map encode).mapM decode = some rest := ih hrest
    change ((a :: rest).map encode).mapM decode = some (a :: rest)
    rw [List.map_cons, List.mapM_cons, h a ha, htail]
    rfl

/-- What is never written as null is told apart from what is absent. -/
theorem optional (h : ReadsBack n encode decode) (hnull : ∀ a, encode a ≠ null)
    {value : Option α} (hdepth : (optional encode value).depth ≤ n) {fields : Fields}
    {name : String} (hfind : fields.find? name = some (optional encode value)) :
    fields.optional name decode = some value := by
  rw [Fields.optional, hfind]
  cases value with
  | none => rfl
  | some a =>
    have ha : decode (encode a) = some a := h a hdepth
    rw [Json.optional]
    split
    · cases ‹some _ = none›
    · next heq => exact absurd (Option.some.inj heq) (hnull a)
    · next heq =>
      rw [← Option.some.inj heq, ha]
      rfl

end ReadsBack

/-- A text is not written as what stands for a missing value. -/
theorem str_ne_null (text : String) : str text ≠ null := by
  intro h
  cases h

/-- Texts are read back at any depth. -/
theorem readsBack_str {n : Nat} : ReadsBack n str text? := fun _ _ => rfl

/-- The decoder gives back what was encoded. What comes of any JSON value that is decoded, however
it was written, is given back by the decoder when it is encoded again; and no two values are encoded
alike. -/
structure RoundTrips (encode : α → Json) (decode : Json → Option α) : Prop where
  decode_encode : ∀ a, decode (encode a) = some a
  decode_again : ∀ {json a}, decode json = some a → decode (encode a) = decode json
  injective : Function.Injective encode

/-- Reading back is enough for the rest: a value that was decoded is encoded and read back, and
values that are encoded alike are decoded alike. -/
theorem RoundTrips.of_decode_encode {encode : α → Json} {decode : Json → Option α}
    (h : ∀ a, decode (encode a) = some a) : RoundTrips encode decode where
  decode_encode := h
  decode_again hdecode := (h _).trans hdecode.symm
  injective a b heq := Option.some.inj ((h a).symm.trans ((congrArg decode heq).trans (h b)))

end TreeLang.Json
