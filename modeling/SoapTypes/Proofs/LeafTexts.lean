import Mathlib.Data.List.TakeWhile
import SoapTypes.Proofs.Plain

/-!
# How leaves are written

The type of a leaf is a primitive, a union of literals or its base type. An array of a primitive has
a suffix, every other array a wrapper; and what is written loses the prefix of the base type, but
nothing of a literal.

* `stripNamespace_append` and `stripNamespace_of_quote`: what loses its prefix, and what does not.
* `memberLines_resolveLeaf`: the lines of a leaf.
* `leafText_primitive`, `leafText_union` and `leafText_base`: the three kinds of leaves.
-/

namespace SoapTypes

open Text

/-- A name behind a prefix is cut off at the colon between them. -/
theorem Text.pieces_qualified {ns name : String} (hns : ':' ∉ ns.toList) (hn : ':' ∉ name.toList) :
    pieces ':' (ns ++ ":" ++ name) = (ns, [name]) := by
  have h : (ns ++ ":" ++ name).toList = ns.toList ++ ':' :: name.toList := by
    simp [String.toList_append]
  rw [pieces, h, cut_append hns, cut_of_not_mem hn]
  simp

theorem LeafLabel.localName_qualified {ns name : String} (hns : ':' ∉ ns.toList)
    (hn : ':' ∉ name.toList) (hne : name ≠ "") : localName (ns ++ ":" ++ name) = name := by
  rw [localName, pieces_qualified hns hn]
  simp [nonempty?, hne]

/-- A type with a character other than letters, digits and dots takes no array suffix, except for a
line break, which could be the last one. -/
theorem Text.isPlainElement_of_mem {type : String} {c : Char} (h : c ∈ type.toList)
    (hb : c ≠ '\n') (hc : (isLetter c || isAsciiDigit c || c == '.') = false) :
    isPlainElement type = false := by
  have hm : c ∈ withoutFinalBreak type.toList := by
    unfold withoutFinalBreak
    split
    · rename_i hl
      rw [← List.dropLast_append_getLast? _ hl, List.mem_append, List.mem_singleton] at h
      exact h.resolve_right hb
    · exact h
  unfold isPlainElement
  split
  · rfl
  · rw [List.all_eq_false]
    exact ⟨c, hm, by simp [hc]⟩

namespace Shape

/-! ### Prefixes -/

theorem throughLastBracket_of_not_mem {cs : List Char} (h : '<' ∉ cs) :
    throughLastBracket cs = [] := by
  have hp : ∀ c ∈ cs.reverse, (c != '<') = true := by
    intro c hm
    simpa using fun e : c = '<' => h (e ▸ List.mem_reverse.1 hm)
  rw [throughLastBracket, List.dropWhile_eq_nil_iff.2 hp, List.reverse_nil]

/-- Up to the last bracket stays what stands in front of it. -/
theorem throughLastBracket_append (cs : List Char) {ds : List Char} (h : '<' ∉ ds) :
    throughLastBracket (cs ++ '<' :: ds) = cs ++ ['<'] := by
  have hp : ∀ c ∈ ds.reverse, (c != '<') = true := by
    intro c hm
    simpa using fun e : c = '<' => h (e ▸ List.mem_reverse.1 hm)
  have hr : (cs ++ '<' :: ds).reverse = ds.reverse ++ '<' :: cs.reverse := by simp
  rw [throughLastBracket, hr, List.dropWhile_append_of_pos hp]
  simp

/-- What stands in front of the first colon is taken off up to its last bracket. -/
theorem stripNamespace_append (front kept back : String) (hc : ':' ∉ front.toList)
    (hq : '"' ∉ front.toList) (hk : String.ofList (throughLastBracket front.toList) = kept) :
    stripNamespace (front ++ ":" ++ back) = kept ++ back := by
  have hp : ∀ c ∈ front.toList, (c != ':') = true := by
    intro c hm
    simpa using fun e : c = ':' => hc (e ▸ hm)
  have hl : (front ++ ":" ++ back).toList = front.toList ++ ':' :: back.toList := by
    simp [String.toList_append]
  rw [stripNamespace, hl, List.takeWhile_append_of_pos hp, List.dropWhile_append_of_pos hp, ← hk]
  simp [hq]

theorem stripNamespace_of_not_mem {type : String} (h : ':' ∉ type.toList) :
    stripNamespace type = type := by
  have hp : ∀ c ∈ type.toList, (c != ':') = true := by
    intro c hm
    simpa using fun e : c = ':' => h (e ▸ hm)
  have hd : type.toList.dropWhile (fun c => c != ':') = [] := by
    rw [← List.append_nil type.toList, List.dropWhile_append_of_pos hp, List.dropWhile_nil]
  rw [stripNamespace, hd]

/-- Behind a double quote no colon ends a prefix. -/
theorem stripNamespace_of_quote (front back : String) (hc : ':' ∉ front.toList) :
    stripNamespace (front ++ "\"" ++ back) = front ++ "\"" ++ back := by
  have hp : ∀ c ∈ front.toList, (c != ':') = true := by
    intro c hm
    simpa using fun e : c = ':' => hc (e ▸ hm)
  have hl : (front ++ "\"" ++ back).toList = front.toList ++ '"' :: back.toList := by
    simp [String.toList_append]
  have hq : '"' ∈ (front ++ "\"" ++ back).toList.takeWhile (fun c => c != ':') := by
    rw [hl, List.takeWhile_append_of_pos hp]
    simp
  rw [stripNamespace]
  split
  · rfl
  · exact if_pos hq

/-! ### Lines of leaves -/

theorem lines_append (quoting : Quoting) (a b : List (String × Member)) :
    lines quoting (a ++ b) = lines quoting a ++ lines quoting b := by
  induction a with
  | nil => rfl
  | cons entry a ih =>
    obtain ⟨name, member⟩ := entry
    rw [List.cons_append, lines_cons, lines_cons, ih, List.append_assoc]

theorem leafComment_ne_empty {targetNamespace : Option String} {label comment : String}
    (h : leafComment targetNamespace label = some comment) : ¬ comment.isEmpty = true := by
  obtain ⟨data, -, rfl⟩ := Option.map_eq_some_iff.1 h
  simp

/-- The lines of a leaf are its comment, if it has one, and its type behind its name. -/
theorem memberLines_resolveLeaf (quoting : Quoting) (property : String) (known : KnownEnums)
    (targetNamespace : Option String) (array : Bool) (label : String) :
    memberLines quoting property (resolveLeaf known targetNamespace array label) =
      (leafComment targetNamespace label).toList ++
        [propertyName quoting property ++ ": " ++ leafText known targetNamespace array label] := by
  rw [resolveLeaf_eq]
  cases hc : leafComment targetNamespace label with
  | none => rfl
  | some comment => exact if_neg (leafComment_ne_empty hc)

/-! ### Kinds of leaves -/

/-- A type, or an array of it in a wrapper. -/
def wrapped (array : Bool) (type : String) : String :=
  if array then "Array<" ++ type ++ ">" else type

theorem arrayOf_primitive {name primitive : String}
    (h : Primitive.ofSchemaType? name = some primitive) :
    arrayOf primitive = primitive ++ "[]" := by
  have hall : ∀ entry ∈ Primitive.table, isPlainElement entry.2 = true := by decide
  rw [arrayOf, if_pos (hall _ (Entries.mem_of_value? h))]

section Leaf

variable {known : KnownEnums} {targetNamespace : Option String} {label : String}

/-- A leaf whose type has a primitive is written with it. -/
theorem leafText_primitive {primitive : String}
    (hp : Primitive.ofSchemaType? (LeafLabel.parse label).localBaseType = some primitive)
    (array : Bool) :
    leafText known targetNamespace array label =
      (if array then primitive ++ "[]" else primitive) ++ ";" := by
  have hm : ∀ entry ∈ Primitive.table, ':' ∉ entry.2.toList := by decide
  have hm : ':' ∉ primitive.toList := hm _ (Entries.mem_of_value? hp)
  have htype : leafType known (qualifiedName targetNamespace (LeafLabel.parse label).displayName)
      (LeafLabel.parse label) = primitive := by rw [leafType, hp]
  rw [leafText, qualifiedLeafType, htype, arrayOf_primitive hp]
  apply stripNamespace_of_not_mem
  cases array <;> simp [String.toList_append, hm]

/-- The literals that a leaf is written with. -/
def leafLiterals (known : KnownEnums) (targetNamespace : Option String) (label : String) :
    List String :=
  literals known (qualifiedName targetNamespace (LeafLabel.parse label).displayName)
    (LeafLabel.parse label)

/-- A leaf that has no primitive and some literals is written as their union, whatever stands in
them. -/
theorem leafText_union (hp : Primitive.ofSchemaType? (LeafLabel.parse label).localBaseType = none)
    (hl : leafLiterals known targetNamespace label ≠ []) (array : Bool) :
    leafText known targetNamespace array label =
      wrapped array (literalUnion (leafLiterals known targetNamespace label)) ++ ";" := by
  have htype : leafType known (qualifiedName targetNamespace (LeafLabel.parse label).displayName)
      (LeafLabel.parse label) = literalUnion (leafLiterals known targetNamespace label) := by
    rw [leafType, hp]
    unfold leafLiterals at hl ⊢
    dsimp only
    split
    · rename_i he
      exact absurd he hl
    · rfl
  have harray : arrayOf (literalUnion (leafLiterals known targetNamespace label)) =
      wrapped true (literalUnion (leafLiterals known targetNamespace label)) := by
    have hq : '"' ∈ (literalUnion (leafLiterals known targetNamespace label)).toList := by
      simp [literalUnion, String.toList_append]
    rw [arrayOf, isPlainElement_of_mem hq (by decide) (by decide)]
    rfl
  rw [leafText, qualifiedLeafType, htype, harray]
  -- the first quote stands in front of every colon
  cases array with
  | false =>
    have h := stripNamespace_of_quote ""
      (joinWith "\" | \"" (leafLiterals known targetNamespace label) ++ "\"" ++ ";") (by decide)
    simpa [wrapped, literalUnion, ← String.append_assoc] using h
  | true =>
    have h := stripNamespace_of_quote "Array<"
      (joinWith "\" | \"" (leafLiterals known targetNamespace label) ++ "\"" ++ ">" ++ ";")
      (by decide)
    simpa [wrapped, literalUnion, ← String.append_assoc] using h

/-- A leaf without a primitive and without literals is written with its base type, which loses its
prefix. -/
theorem leafText_base {ns name : String}
    (hb : (LeafLabel.parse label).baseType = ns ++ ":" ++ name) (hns : ':' ∉ ns.toList)
    (hq : '"' ∉ ns.toList) (ho : '<' ∉ ns.toList)
    (hp : Primitive.ofSchemaType? (LeafLabel.parse label).localBaseType = none)
    (hl : leafLiterals known targetNamespace label = []) (array : Bool) :
    leafText known targetNamespace array label = wrapped array name ++ ";" := by
  have htype : leafType known (qualifiedName targetNamespace (LeafLabel.parse label).displayName)
      (LeafLabel.parse label) = ns ++ ":" ++ name := by
    unfold leafLiterals at hl
    rw [leafType, hp, hl, hb]
  have hc : ':' ∈ (ns ++ ":" ++ name).toList := by simp [String.toList_append]
  have harray : arrayOf (ns ++ ":" ++ name) = wrapped true (ns ++ ":" ++ name) := by
    rw [arrayOf, isPlainElement_of_mem hc (by decide) (by decide)]
    rfl
  rw [leafText, qualifiedLeafType, htype, harray]
  cases array with
  | false =>
    have hk : String.ofList (throughLastBracket ns.toList) = "" := by
      rw [throughLastBracket_of_not_mem ho]
    have h := stripNamespace_append ns "" (name ++ ";") hns hq hk
    simpa [wrapped, ← String.append_assoc] using h
  | true =>
    have hk : String.ofList (throughLastBracket ("Array<" ++ ns).toList) = "Array<" := by
      have hsplit : ("Array<" ++ ns).toList = "Array".toList ++ '<' :: ns.toList := by
        simp [String.toList_append]
      rw [hsplit, throughLastBracket_append _ ho]
      rfl
    have h := stripNamespace_append ("Array<" ++ ns) "Array<" (name ++ ">" ++ ";")
      (by simp [String.toList_append, hns]) (by simp [String.toList_append, hq]) hk
    simpa [wrapped, ← String.append_assoc] using h

end Leaf

end Shape

end SoapTypes
