import SoapTypes.Proofs.CheckedSchemas

/-!
# Two notations for one node

A node is written with its tag as its kind and its attributes in a container of their own, or with
its tag as its name and a member for each attribute. Each node of a tree may be in a notation of its
own, and all of them are read as the same tree. Only a member cannot name every attribute: the name
that it is read with is a text.

* `Node.WrittenAs` relates a node to the values that write it.
* `Node.Canonical` is what a node has that was read: a tag that gives its kind, and no attribute
  twice.
* `Node.ofJson_of_writtenAs`: reading what writes such a node gives the node.
* `Node.notations_read_alike` is the result, `Node.number_read_as_text` the attribute that no
  member can name.
-/

namespace SoapTypes.Schema

namespace AttributeName

/-- A name as the name of a member. -/
def memberName (name : AttributeName) : String := name.toJson.asText

@[simp] theorem memberName_text (s : String) : (text s).memberName = s := rfl

end AttributeName

namespace Attributes

/-! ### Attributes without repeated names -/

/-- No two attributes have one name. -/
def Distinct (attributes : Attributes) : Prop :=
  attributes.Pairwise fun a b => a.1.same b.1 = false

variable {attributes : Attributes} {name : AttributeName}

theorem put_eq_append (h : ∀ entry ∈ attributes, entry.1.same name = false) (value : Json) :
    attributes.put name value = attributes ++ [(name, value)] := by
  induction attributes with
  | nil => rfl
  | cons entry attributes ih =>
    obtain ⟨hentry, h⟩ := List.forall_mem_cons.1 h
    rw [put, if_neg (by simp [hentry]), ih h]
    rfl

theorem mem_put {value : Json} {entry : AttributeName × Json}
    (h : entry ∈ attributes.put name value) :
    entry.1 = name ∨ ∃ held ∈ attributes, held.1 = entry.1 := by
  induction attributes with
  | nil => exact .inl (by rw [List.mem_singleton.1 h])
  | cons first attributes ih =>
    rw [put] at h
    split at h
    · rcases List.mem_cons.1 h with rfl | h
      · exact .inr ⟨first, List.mem_cons_self, rfl⟩
      · exact .inr ⟨entry, List.mem_cons_of_mem _ h, rfl⟩
    · rcases List.mem_cons.1 h with rfl | h
      · exact .inr ⟨_, List.mem_cons_self, rfl⟩
      · rcases ih h with he | ⟨held, hm, he⟩
        · exact .inl he
        · exact .inr ⟨held, List.mem_cons_of_mem _ hm, he⟩

theorem Distinct.put (h : Distinct attributes) (name : AttributeName) (value : Json) :
    Distinct (attributes.put name value) := by
  induction attributes with
  | nil => exact List.pairwise_singleton _ _
  | cons first attributes ih =>
    obtain ⟨hfirst, h⟩ := List.pairwise_cons.1 h
    rw [Attributes.put]
    split
    · exact List.pairwise_cons.2 ⟨hfirst, h⟩
    · rename_i hn
      refine List.pairwise_cons.2 ⟨fun entry hm => ?_, ih h⟩
      rcases mem_put hm with he | ⟨held, hm, he⟩
      · rw [he]
        simpa using hn
      · rw [← he]
        exact hfirst held hm

theorem Distinct.putAll (h : Distinct attributes) (more : List (AttributeName × Json)) :
    Distinct (attributes.putAll more) := by
  induction more generalizing attributes with
  | nil => exact h
  | cons entry more ih => exact ih (h.put entry.1 entry.2)

theorem distinct_nil : Distinct [] := List.Pairwise.nil

/-- Attributes that are put where none of them is stand behind what is there. -/
theorem putAll_eq_append {more : List (AttributeName × Json)} (h : Distinct (attributes ++ more)) :
    attributes.putAll more = attributes ++ more := by
  induction more generalizing attributes with
  | nil => simp [Attributes.putAll]
  | cons entry more ih =>
    have hnew : ∀ held ∈ attributes, held.1.same entry.1 = false := fun held hm =>
      (List.pairwise_append.1 h).2.2 held hm entry List.mem_cons_self
    have hput : attributes.put entry.1 entry.2 = attributes ++ [entry] := put_eq_append hnew _
    have happend : attributes ++ entry :: more = attributes ++ [entry] ++ more := by simp
    rw [happend] at h ⊢
    rw [← ih h, ← hput]
    rfl

/-- Attributes without repeated names are what they are put together to. -/
theorem putAll_nil_left (h : Distinct attributes) : Attributes.putAll [] attributes = attributes :=
  @putAll_eq_append [] attributes h

/-! ### Attributes that are written -/

/-- Attributes as the members of an object. -/
def toMembers (attributes : Attributes) : List (String × Json) :=
  attributes.map fun entry => (entry.1.memberName, entry.2)

/-- Attributes as members of their node. -/
def toDollarMembers (attributes : Attributes) : List (String × Json) :=
  attributes.map fun entry => ("$" ++ entry.1.memberName, entry.2)

/-- Attributes as a sequence of entries. -/
def toEntries (attributes : Attributes) : List Json :=
  attributes.map fun entry => .array [entry.1.toJson, entry.2]

/-- All names of attributes are texts. -/
def TextNames (attributes : Attributes) : Prop := ∀ entry ∈ attributes, ∃ s, entry.1 = .text s

/-- A container holds attributes: an object, if their names are texts, or a sequence of entries. -/
inductive HeldIn (attributes : Attributes) : Json → Prop where
  | object (h : attributes.TextNames) : HeldIn attributes (.object attributes.toMembers)
  | entries : HeldIn attributes (.array attributes.toEntries)

theorem ofMembers_toMembers (h : attributes.TextNames) :
    ofMembers attributes.toMembers = attributes := by
  induction attributes with
  | nil => rfl
  | cons entry attributes ih =>
    obtain ⟨name, value⟩ := entry
    obtain ⟨⟨s, rfl : name = .text s⟩, hrest⟩ := List.forall_mem_cons.1 h
    exact congrArg (_ :: ·) (ih hrest)

theorem readEntries_toEntries (attributes : Attributes) (index : Nat) :
    Node.readEntries index attributes.toEntries = .ok attributes := by
  induction attributes generalizing index with
  | nil => rfl
  | cons entry attributes ih =>
    have hrest := ih (index + 1)
    simp only [toEntries] at hrest
    simp only [toEntries, List.map_cons, Node.readEntries, Node.entryParts?,
      AttributeName.ofJson?_toJson, hrest]
    rfl

/-- **Attributes are read from what holds them.** -/
theorem attributesOf_of_heldIn {container : Json} (hd : attributes.Distinct)
    (h : attributes.HeldIn container) : Node.attributesOf container = .ok attributes := by
  cases h with
  | object ht =>
    rw [Node.attributesOf]
    split
    · rename_i hb
      have hnil : attributes = [] := by simpa [Json.isBlank, toMembers] using hb
      rw [hnil]
    · rw [ofMembers_toMembers ht, putAll_nil_left hd]
  | entries =>
    rw [Node.attributesOf]
    split
    · rename_i hb
      have hnil : attributes = [] := by simpa [Json.isBlank, toEntries] using hb
      rw [hnil]
    · rw [readEntries_toEntries]
      exact congrArg Except.ok (putAll_nil_left hd)

/-- What was read from a container names no attribute twice. -/
theorem distinct_of_attributesOf {value : Json} (h : Node.attributesOf value = .ok attributes) :
    attributes.Distinct := by
  have hread : ∀ {read : Except Fault (List (AttributeName × Json))},
      read.map (Attributes.putAll []) = .ok attributes → attributes.Distinct := by
    rintro (fault | entries) he
    · cases he
    · rw [← Except.ok.inj he]
      exact distinct_nil.putAll entries
  unfold Node.attributesOf at h
  split at h
  · rw [← Except.ok.inj h]
    exact distinct_nil
  · split at h
    · rw [← Except.ok.inj h]
      exact distinct_nil.putAll _
    · exact hread h
    · exact hread h
    · cases h

end Attributes

namespace NodeKind

/-- The name of a kind is a tag of it. -/
theorem ofTag_tagName (kind : NodeKind) : ofTag kind.tagName = kind := by
  cases kind <;> decide

end NodeKind

namespace Node

/-! ### Nodes that were read -/

/-- A node as it is read: its tag is not empty and gives its kind, and it and all nodes below it
name no attribute twice. -/
inductive Canonical : Node → Prop where
  | mk {kind : NodeKind} {tag : String} {attributes : Attributes} {children : List Node}
      (tag_ne : tag.isEmpty = false) (kind_eq : NodeKind.ofTag tag = kind)
      (distinct : attributes.Distinct) (below : ∀ child ∈ children, Canonical child) :
      Canonical ⟨kind, tag, attributes, children⟩

theorem canonical_ofTag (tag : String) {attributes : Attributes} {children : List Node}
    (hd : attributes.Distinct) (hc : ∀ child ∈ children, Canonical child) :
    (ofTag tag attributes children).Canonical := by
  by_cases ht : tag.isEmpty = true
  · have hname : ∀ kind : NodeKind, kind.tagName.isEmpty = false := by
      intro kind
      cases kind <;> decide
    simp only [ofTag, ht, if_true]
    exact .mk (hname _) (NodeKind.ofTag_tagName _) hd hc
  · simp only [ofTag, ht]
    exact .mk (by simpa using ht) rfl hd hc

mutual

/-- **A node that was read is canonical.** -/
theorem canonical_of_ofJson : (value : Json) → ∀ {node : Node}, ofJson value = .ok node →
    node.Canonical
  | .object members, node, h => by
    rw [ofJson] at h
    obtain ⟨attributes, ha, h⟩ := exists_of_bind_eq_ok h
    obtain ⟨children, hc, h⟩ := exists_of_bind_eq_ok h
    obtain ⟨tag, -, h⟩ := exists_of_bind_eq_ok h
    rw [← Except.ok.inj h]
    exact canonical_ofTag tag ((Attributes.distinct_of_attributesOf ha).putAll _)
      (canonical_of_childrenOf members hc)
  | .null, _, h | .bool _, _, h | .integer _, _, h | .real _, _, h | .text _, _, h
  | .array _, _, h => by cases h

theorem canonical_of_childrenOf : (members : List (String × Json)) → ∀ {nodes : List Node},
    childrenOf members = .ok nodes → ∀ node ∈ nodes, node.Canonical
  | [], nodes, h => by
    rw [← Except.ok.inj h]
    simp
  | (key, value) :: members, nodes, h => by
    rw [childrenOf] at h
    split at h
    · exact canonical_of_nodesOf value h
    · exact canonical_of_childrenOf members h

theorem canonical_of_nodesOf : (value : Json) → ∀ {nodes : List Node},
    nodesOf value = .ok nodes → ∀ node ∈ nodes, node.Canonical
  | .array items, nodes, h => canonical_of_ofItems items h
  | .object _, nodes, h | .text _, nodes, h | .null, nodes, h | .bool _, nodes, h
  | .integer _, nodes, h | .real _, nodes, h => by
    -- what is no array holds no nodes
    simp only [nodesOf] at h
    split at h <;> cases h
    simp

theorem canonical_of_ofItems : (items : List Json) → ∀ {nodes : List Node},
    ofItems items = .ok nodes → ∀ node ∈ nodes, node.Canonical
  | [], nodes, h => by
    rw [← Except.ok.inj h]
    simp
  | item :: items, nodes, h => by
    rw [ofItems] at h
    split at h
    · cases h
    · rename_i first hfirst
      cases hrest : ofItems items with
      | error fault =>
        rw [hrest] at h
        cases h
      | ok rest =>
        rw [hrest] at h
        rw [← Except.ok.inj h]
        exact List.forall_mem_cons.2
          ⟨canonical_of_ofJson item hfirst, canonical_of_ofItems items hrest⟩

end

/-! ### Nodes that are written -/

mutual

/-- A value writes a node: with its tag as its kind and a container of its attributes, or, if the
names of its attributes are texts, with its tag as its name and a member for each attribute. -/
inductive WrittenAs : Node → Json → Prop where
  | byKind {kind : NodeKind} {tag : String} {attributes : Attributes} {children : List Node}
      {container : Json} {items : List Json} (ha : attributes.HeldIn container)
      (hc : AllWrittenAs children items) :
      WrittenAs ⟨kind, tag, attributes, children⟩
        (.object [("kind", .text tag), ("attributes", container), ("children", .array items)])
  | byName {kind : NodeKind} {tag : String} {attributes : Attributes} {children : List Node}
      {items : List Json} (ha : attributes.TextNames) (hc : AllWrittenAs children items) :
      WrittenAs ⟨kind, tag, attributes, children⟩
        (.object (("name", .text tag) ::
          (attributes.toDollarMembers ++ [("children", .array items)])))

/-- Values write nodes one by one, each in a notation of its own. -/
inductive AllWrittenAs : List Node → List Json → Prop where
  | nil : AllWrittenAs [] []
  | cons {node : Node} {nodes : List Node} {item : Json} {items : List Json}
      (h : WrittenAs node item) (hs : AllWrittenAs nodes items) :
      AllWrittenAs (node :: nodes) (item :: items)

end

theorem present?_text {members : List (String × Json)} {key tag : String}
    (h : Entries.value? members key = some (.text tag)) (ht : tag.isEmpty = false) :
    present? members key = some (.text tag) := by
  simp [present?, h, Json.isBlank, ht]

/-! ### Members with a dollar sign -/

section Dollar

variable {attributes : Attributes} {rest : List (String × Json)} {key : String}

theorem value?_toDollarMembers_append (h : key.toList.head? ≠ some '$') :
    Entries.value? (attributes.toDollarMembers ++ rest) key = Entries.value? rest key := by
  induction attributes with
  | nil => rfl
  | cons entry attributes ih =>
    have hne : "$" ++ entry.1.memberName ≠ key := by
      rintro rfl
      exact h (by simp [String.toList_append])
    rw [Attributes.toDollarMembers, List.map_cons, List.cons_append, Entries.value?, if_neg hne]
    exact ih

theorem childrenOf_toDollarMembers_append :
    childrenOf (attributes.toDollarMembers ++ rest) = childrenOf rest := by
  induction attributes with
  | nil => rfl
  | cons entry attributes ih =>
    have hne : "$" ++ entry.1.memberName ≠ "children" := by
      intro he
      have hc := congrArg (fun s => s.toList.head?) he
      simp [String.toList_append] at hc
    rw [Attributes.toDollarMembers, List.map_cons, List.cons_append, childrenOf, if_neg hne]
    exact ih

theorem dollarAttribute?_eq_none (h : key.toList.head? ≠ some '$') (value : Json) :
    dollarAttribute? (key, value) = none := by
  unfold dollarAttribute?
  split
  · rename_i name hn
    exact absurd (by rw [hn]; rfl) h
  · rfl

theorem filterMap_toDollarMembers (h : attributes.TextNames) :
    attributes.toDollarMembers.filterMap dollarAttribute? = attributes := by
  induction attributes with
  | nil => rfl
  | cons entry attributes ih =>
    obtain ⟨name, value⟩ := entry
    obtain ⟨⟨s, rfl : name = .text s⟩, hrest⟩ := List.forall_mem_cons.1 h
    have hfirst : dollarAttribute? ("$" ++ (AttributeName.text s).memberName, value) =
        some (.text s, value) := by
      simp [dollarAttribute?, String.toList_append]
    rw [Attributes.toDollarMembers, List.map_cons, List.filterMap_cons_some hfirst]
    exact congrArg (_ :: ·) (ih hrest)

end Dollar

/-- What the members of a node give is the node that is read from them. -/
theorem ofJson_object {members : List (String × Json)} {attributes : Attributes}
    {children : List Node} {tag : String}
    (ha : attributesOf ((Entries.value? members "attributes").getD .null) = .ok attributes)
    (hc : childrenOf members = .ok children) (ht : tagOf members = .ok tag) :
    ofJson (.object members) =
      .ok (ofTag tag (attributes.putAll (members.filterMap dollarAttribute?)) children) := by
  rw [ofJson, ha, hc, ht]
  rfl

section Read

variable {kind : NodeKind} {tag : String} {attributes : Attributes} {children : List Node}
  {items : List Json}

theorem ofTag_of_canonical (h : (⟨kind, tag, attributes, children⟩ : Node).Canonical) :
    ofTag tag attributes children = ⟨kind, tag, attributes, children⟩ := by
  cases h with
  | mk ht hk => simp [ofTag, ht, hk]

/-- A node is read from its tag as its kind and a container of its attributes. -/
theorem ofJson_byKind (h : (⟨kind, tag, attributes, children⟩ : Node).Canonical)
    {container : Json} (ha : attributes.HeldIn container) (hc : ofItems items = .ok children) :
    ofJson (.object [("kind", .text tag), ("attributes", container), ("children", .array items)]) =
      .ok ⟨kind, tag, attributes, children⟩ := by
  rw [← ofTag_of_canonical h]
  cases h with
  | mk ht hk hd =>
    have hdollar : [("kind", Json.text tag), ("attributes", container),
        ("children", .array items)].filterMap dollarAttribute? = [] := by
      simp [dollarAttribute?_eq_none (show ("kind" : String).toList.head? ≠ some '$' by decide),
        dollarAttribute?_eq_none (show ("attributes" : String).toList.head? ≠ some '$' by decide),
        dollarAttribute?_eq_none (show ("children" : String).toList.head? ≠ some '$' by decide)]
    have hattributes : attributesOf ((Entries.value? [("kind", Json.text tag),
        ("attributes", container), ("children", .array items)] "attributes").getD .null) =
        .ok attributes := Attributes.attributesOf_of_heldIn hd ha
    rw [ofJson_object hattributes ?_ ?_, hdollar]
    · rfl
    · simpa [childrenOf, nodesOf] using hc
    · rw [tagOf, @present?_text _ "kind" tag rfl ht]
      rfl

/-- A node is read from its tag as its name and a member for each attribute. -/
theorem ofJson_byName (h : (⟨kind, tag, attributes, children⟩ : Node).Canonical)
    (ha : attributes.TextNames) (hc : ofItems items = .ok children) :
    ofJson (.object (("name", .text tag) ::
        (attributes.toDollarMembers ++ [("children", .array items)]))) =
      .ok ⟨kind, tag, attributes, children⟩ := by
  rw [← ofTag_of_canonical h]
  cases h with
  | mk ht hk hd =>
    have hnone : ∀ key : String, key.toList.head? ≠ some '$' → key ≠ "name" → key ≠ "children" →
        Entries.value? (("name", Json.text tag) ::
          (attributes.toDollarMembers ++ [("children", .array items)])) key = none := by
      intro key hdollar hname hchildren
      rw [Entries.value?, if_neg (Ne.symm hname), value?_toDollarMembers_append hdollar,
        Entries.value?, if_neg (Ne.symm hchildren)]
      rfl
    have hattributes := hnone "attributes" (by decide) (by decide) (by decide)
    have hkind := hnone "kind" (by decide) (by decide) (by decide)
    have hdollar : (("name", Json.text tag) :: (attributes.toDollarMembers ++
        [("children", .array items)])).filterMap dollarAttribute? = attributes := by
      rw [List.filterMap_cons_none (dollarAttribute?_eq_none (by decide) _), List.filterMap_append,
        filterMap_toDollarMembers ha,
        List.filterMap_cons_none (dollarAttribute?_eq_none (by decide) _), List.filterMap_nil,
        List.append_nil]
    rw [ofJson_object (by rw [hattributes]; rfl) ?_ ?_, hdollar,
      Attributes.putAll_nil_left hd]
    · simpa [childrenOf, nodesOf, childrenOf_toDollarMembers_append] using hc
    · rw [tagOf, @present?_text _ "name" tag rfl ht]
      simp [present?, hkind]

end Read

mutual

/-- **Reading what writes a canonical node gives the node.** -/
theorem ofJson_of_writtenAs : ∀ {node : Node} {written : Json}, WrittenAs node written →
    node.Canonical → ofJson written = .ok node
  | _, _, .byKind ha hs, hn => by
    cases hn with
    | mk ht hk hd hb => exact ofJson_byKind (.mk ht hk hd hb) ha (ofItems_of_allWrittenAs hs hb)
  | _, _, .byName ha hs, hn => by
    cases hn with
    | mk ht hk hd hb => exact ofJson_byName (.mk ht hk hd hb) ha (ofItems_of_allWrittenAs hs hb)

theorem ofItems_of_allWrittenAs : ∀ {nodes : List Node} {items : List Json},
    AllWrittenAs nodes items → (∀ node ∈ nodes, node.Canonical) → ofItems items = .ok nodes
  | _, _, .nil, _ => rfl
  | _, _, .cons h hs, hc => by
    obtain ⟨hnode, hnodes⟩ := List.forall_mem_cons.1 hc
    rw [ofItems, ofJson_of_writtenAs h hnode, ofItems_of_allWrittenAs hs hnodes]
    rfl

end

/-- **A node is the same in any notation.** Whatever a node was read from, reading what writes it, in
any mixture of notations, gives the same node: its kind, its tag, its attributes in their order, and
its children. So it is declared with the same text and the same notices. -/
theorem notations_read_alike {value written : Json} {node : Node} (h : ofJson value = .ok node)
    (hw : WrittenAs node written) :
    ofJson written = .ok node ∧
      ∀ base, (Traced.ofExcept (ofJson written) >>= declare base) = declare base node := by
  have hread := ofJson_of_writtenAs hw (canonical_of_ofJson value h)
  refine ⟨hread, fun base => ?_⟩
  rw [hread]
  exact Traced.mk_bind_ok [] node (declare base)

/-- A node with attributes that are called like the members of a node, and without a tag below it. -/
def oddNames : Json :=
  .object [("name", .text "xs:element"), ("$kind", .text ""), ("attributes", .object
    [("children", .integer 0)]), ("children", .array [.object [("$name", .text "id")]])]

/-- It is read again from its tag as its kind, with the node below it written the other way. -/
theorem notations_read_alike_oddNames :
    ∃ node, ofJson oddNames = .ok node ∧
      ofJson (.object [("kind", .text "xs:element"),
        ("attributes", .object [("children", .integer 0), ("kind", .text "")]),
        ("children", .array [.object [("name", .text "unknown"), ("$name", .text "id"),
          ("children", .array [])]])]) = .ok node := by
  have hparent : Attributes.TextNames
      [(.text "children", .integer 0), (.text "kind", .text "")] := by
    simp [Attributes.TextNames]
  have hchild : Attributes.TextNames [(.text "name", .text "id")] := by
    simp [Attributes.TextNames]
  refine ⟨_, rfl, ?_⟩
  refine (notations_read_alike (show ofJson oddNames = _ from rfl) ?_).1
  exact .byKind (.object hparent) (.cons (.byName hchild .nil) .nil)

/-- **No member names an attribute whose name is a number**: the name that it is read with is a
text. The attribute can be written in a container, and a warning shows the difference. -/
theorem number_read_as_text :
    let value : Json := .object [("kind", .text "choice"),
      ("attributes", .array [.array [.integer 1, .text "x"]])]
    let node : Node := ⟨.unknown, "choice", [(.integer 1, .text "x")], []⟩
    let written : Json := .object (("name", .text node.tag) ::
      (node.attributes.toDollarMembers ++ [("children", .array [])]))
    ofJson value = .ok node ∧ written = .object [("name", .text "choice"), ("$1", .text "x"),
        ("children", .array [])] ∧
      ofJson written ≠ .ok node ∧
      (Traced.ofExcept (ofJson written) >>= declare none).warnings ≠
        (declare none node).warnings := by
  refine ⟨rfl, rfl, ?_, ?_⟩
  · intro h
    cases h
  · decide +kernel

end Node

end SoapTypes.Schema
