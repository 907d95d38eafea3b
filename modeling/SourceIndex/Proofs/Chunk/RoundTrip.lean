import SourceIndex.Proofs.Chunk.Metadata
import SourceIndex.Proofs.Step
import SourceIndex.Text.Decimal

/-! Metadata that is written and read again is as before. An object is read field by field whatever
its fields are, so long as they are the known ones in their order and each is accepted; what was found
for a field is then what was written for it. Lists come back also when they are empty, and texts that are
absent stay absent. -/

namespace SourceIndex
open Step (ok_bind)

namespace Json.Decoder

/-! ### Records -/

/-- The fields of an object are the known ones in their order, and all are accepted. -/
inductive Accepted (depth : Nat) : List Field → List (String × Json) → Prop where
  | nil : Accepted depth [] []
  | cons {field : Field} {json : Json} {known : List Field} {fields : List (String × Json)} :
      field.check depth json.toNode = .ok () → Accepted depth known fields →
      Accepted depth (field :: known) ((field.name, json) :: fields)

variable {depth : Nat} {known : List Field} {fields : List (String × Json)}

theorem Accepted.names (h : Accepted depth known fields) :
    fields.map Prod.fst = known.map Field.name := by
  induction h with
  | nil => rfl
  | cons _ _ ih => rw [List.map_cons, List.map_cons, ih]

theorem Accepted.check_of_mem (h : Accepted depth known fields) {key : String} {json : Json}
    (hmem : (key, json) ∈ fields) :
    ∃ field ∈ known, field.name = key ∧ field.check depth json.toNode = .ok () := by
  induction h with
  | nil => cases hmem
  | cons hcheck _ ih =>
      rcases List.mem_cons.mp hmem with heq | hrest
      · cases heq
        exact ⟨_, List.mem_cons_self, rfl, hcheck⟩
      · obtain ⟨field, hfield, hname, hok⟩ := ih hrest
        exact ⟨field, List.mem_cons_of_mem _ hfield, hname, hok⟩

theorem find?_name (hknown : (known.map Field.name).Nodup) {field : Field} (hfield : field ∈ known) :
    known.find? (·.name == field.name) = some field := by
  induction known with
  | nil => cases hfield
  | cons first rest ih =>
      obtain ⟨hfresh, hrest⟩ := List.nodup_cons.mp hknown
      rcases List.mem_cons.mp hfield with rfl | hmem
      · exact List.find?_cons_of_pos (beq_self_eq_true field.name)
      · have hne : (first.name == field.name) = false :=
          beq_false_of_ne fun heq => hfresh (heq ▸ List.mem_map_of_mem hmem)
        rw [List.find?_cons, hne]
        exact ih hrest hmem

theorem recordFields_cons {field : Field} (hknown : (known.map Field.name).Nodup)
    (hfield : field ∈ known) {node : Node} (hcheck : field.check depth node = .ok ())
    {found : List (String × Node)} (hnew : found.lookup field.name = none)
    (rest : List (Option String × Node)) :
    recordFields known depth ((some field.name, node) :: rest) found =
      recordFields known depth rest ((field.name, node) :: found) := by
  rw [recordFields, find?_name hknown hfield]
  simp only [hnew, hcheck]
  rfl

/-- Fields of different names that are known and accepted are all found. -/
theorem recordFields_fieldNodes (hknown : (known.map Field.name).Nodup) (found : List (String × Node))
    (hdistinct : (fields.map Prod.fst).Nodup)
    (haccepted : ∀ key json, (key, json) ∈ fields →
      ∃ field ∈ known, field.name = key ∧ field.check depth json.toNode = .ok ())
    (hnew : ∀ key ∈ fields.map Prod.fst, found.lookup key = none) :
    ∃ found', recordFields known depth (fieldNodes fields) found = .ok found' ∧
      ∀ key, found'.lookup key = ((fields.lookup key).map toNode).or (found.lookup key) := by
  induction fields generalizing found with
  | nil => exact ⟨found, rfl, fun _ => rfl⟩
  | cons pair rest ih =>
      obtain ⟨key, json⟩ := pair
      obtain ⟨field, hfield, rfl, hcheck⟩ := haccepted key json List.mem_cons_self
      obtain ⟨hfresh, hrest⟩ := List.nodup_cons.mp hdistinct
      have hnone : found.lookup field.name = none := hnew field.name List.mem_cons_self
      obtain ⟨found', hfound', hlookup⟩ := ih ((field.name, json.toNode) :: found) hrest
        (fun key json hmem => haccepted key json (List.mem_cons_of_mem _ hmem))
        (fun key hmem => by
          have hne : key ≠ field.name := fun heq => hfresh (heq ▸ hmem)
          rw [List.lookup_cons, beq_false_of_ne hne]
          exact hnew key (List.mem_cons_of_mem _ hmem))
      refine ⟨found', ?_, fun key => ?_⟩
      · rw [fieldNodes, recordFields_cons hknown hfield hcheck hnone, hfound']
      · rw [hlookup, List.lookup_cons, List.lookup_cons]
        cases hkey : key == field.name with
        | false => rfl
        | true =>
            -- the field is new, so nothing was found for it before
            have hlater : rest.lookup key = none := by
              rw [eq_of_beq hkey, List.lookup_eq_none_iff]
              intro pair hpair
              exact bne_iff_ne.mpr fun heq => hfresh (List.mem_map.mpr ⟨pair, hpair, heq.symm⟩)
            rw [hlater]
            rfl

/-- An object of the known fields is a record, in which each is found as it was written. -/
theorem record_of_accepted (hknown : (known.map Field.name).Nodup) (h : Accepted depth known fields) :
    ∃ found, record known (depth + 1) (Json.object fields).toNode = .ok found ∧ found.depth = depth ∧
      ∀ key, found.nodes.lookup key = (fields.lookup key).map toNode := by
  have hdistinct : (fields.map Prod.fst).Nodup := h.names ▸ hknown
  obtain ⟨found, hfound, hlookup⟩ := recordFields_fieldNodes hknown [] hdistinct
    (fun _ _ hmem => h.check_of_mem hmem) (fun _ _ => rfl)
  have hlookup' : ∀ key, found.lookup key = (fields.lookup key).map toNode := fun key => by
    rw [hlookup, List.lookup_nil, Option.or_none]
  have hall : (known.all fun field =>
      field.absence != .never || (found.lookup field.name).isSome) = true := by
    rw [List.all_eq_true]
    intro field hfield
    have hname : field.name ∈ fields.map Prod.fst := h.names ▸ List.mem_map_of_mem hfield
    obtain ⟨pair, hpair, hkey⟩ := List.mem_map.mp hname
    have hsome : (fields.lookup field.name).isSome = true :=
      List.lookup_isSome_iff.mpr ⟨pair, hpair, beq_iff_eq.mpr hkey.symm⟩
    rw [hlookup', Option.isSome_map, hsome, Bool.or_true]
  refine ⟨⟨depth, found⟩, ?_, rfl, hlookup'⟩
  rw [toNode, record, hfound, ok_bind, if_neg (by decide), if_pos hall]

theorem Record.get_ok {α : Type} {found : Record} {name : String} {decoder : Decoder α} {node : Node}
    {a : α} (hnode : found.nodes.lookup name = some node) (hok : decoder found.depth node = .ok a) :
    found.get name decoder = .ok a := by
  simp only [Record.get, hnode, hok]

theorem Record.getD_ok {α : Type} {found : Record} {name : String} {decoder : Decoder α} {node : Node}
    {a : α} (hnode : found.nodes.lookup name = some node) (hok : decoder found.depth node = .ok a)
    (absent : α) : found.getD name decoder absent = .ok a := by
  simp only [Record.getD, hnode, hok]

/-! ### Values -/

theorem check_field {α : Type} {decoder : Decoder α} {node : Node} {a : α}
    (h : decoder depth node = .ok a) (name : String) (absence : Absence) :
    (field name decoder absence).check depth node = .ok () := by
  simp only [field, h]
  rfl

theorem string_toNode (depth : Nat) (s : String) : string depth (Json.string s).toNode = .ok s := rfl

theorem natUpTo_toNode {bound n : Nat} (h : n ≤ bound) (depth : Nat) :
    natUpTo bound depth (Json.nat n).toNode = .ok n := by
  have hin : (decide ((0 : Int) ≤ n) && decide ((n : Int) ≤ bound)) = true := by
    rw [Bool.and_eq_true, decide_eq_true_iff, decide_eq_true_iff]
    omega
  rw [Json.nat, toNode, natUpTo]
  exact if_pos hin

theorem word64_toNode {n : Nat} (h : n ≤ Text.maxWord64) (depth : Nat) :
    word64 depth (Json.nat n).toNode = .ok n := natUpTo_toNode h depth

theorem nullable_toNode {α : Type} {item : Decoder α} {write : α → Json}
    (hwritten : ∀ a, (write a).toNode ≠ .null ∧ item depth (write a).toNode = .ok a)
    (value : Option α) : nullable item depth (Json.ofOption write value).toNode = .ok value := by
  cases value with
  | none => rfl
  | some a =>
      obtain ⟨hnull, hok⟩ := hwritten a
      rw [Json.ofOption, nullable]
      · rw [hok]
        rfl
      · exact hnull

theorem list_toNode {α : Type} {item : Decoder α} {write : α → Json}
    (hwritten : ∀ a, item depth (write a).toNode = .ok a) (values : List α) :
    list item (depth + 1) (Json.array (values.map write)).toNode = .ok values := by
  have hitems : (itemNodes (values.map write)).mapM (item depth) = .ok values := by
    induction values with
    | nil => rfl
    | cons a rest ih =>
        rw [List.map_cons, itemNodes, List.mapM_cons, hwritten, ih]
        rfl
  rw [toNode, list, hitems]
  rfl

end Json.Decoder

theorem EntityKind.ofName?_name (kind : EntityKind) : ofName? kind.name = some kind := by
  cases kind <;> rfl

namespace Chunk.Metadata
open Json Json.Decoder

theorem names_nodup : (fields.map Field.name).Nodup := by decide +kernel

theorem kindDecoder_toNode (depth : Nat) (kind : EntityKind) :
    kindDecoder depth (Json.string kind.name).toNode = .ok kind := by
  rw [toNode, kindDecoder, named]
  simp only [EntityKind.ofName?_name]

theorem text?_toNode (depth : Nat) (text : Option String) :
    text? depth (Json.ofOption .string text).toNode = .ok text :=
  nullable_toNode (fun s => ⟨Node.noConfusion, string_toNode depth s⟩) text

theorem texts_toNode (depth : Nat) (values : List String) :
    texts (depth + 1) (Json.strings values).toNode = .ok values :=
  list_toNode (string_toNode depth) values

/-- The line numbers fit into 64 bits. -/
def Fits (m : Metadata) : Prop := m.startLine ≤ Text.maxWord64 ∧ m.endLine ≤ Text.maxWord64

/-- The fields that are written for metadata. -/
def written (m : Metadata) : List (String × Json) :=
  match m.toJson with
  | .object fields => fields
  | _ => []

theorem accepted_written {m : Metadata} (h : m.Fits) (depth : Nat) :
    Accepted (depth + 1) fields m.written :=
  .cons (check_field (string_toNode _ m.repo) _ _) <|
  .cons (check_field (string_toNode _ m.user) _ _) <|
  .cons (check_field (string_toNode _ m.path) _ _) <|
  .cons (check_field (string_toNode _ m.fileName) _ _) <|
  .cons (check_field (string_toNode _ m.url) _ _) <|
  .cons (check_field (kindDecoder_toNode _ m.kind) _ _) <|
  .cons (check_field (string_toNode _ m.name) _ _) <|
  .cons (check_field (word64_toNode h.1 _) _ _) <|
  .cons (check_field (word64_toNode h.2 _) _ _) <|
  .cons (check_field (string_toNode _ m.content) _ _) <|
  .cons (check_field (text?_toNode _ m.doc) _ _) <|
  .cons (check_field (texts_toNode _ m.imports) _ _) <|
  .cons (check_field (texts_toNode _ m.exports) _ _) <|
  .cons (check_field (text?_toNode _ m.parent) _ _) <|
  .cons (check_field (texts_toNode _ m.calls) _ _) .nil

/-- Metadata that is written is read as it was. -/
theorem ofJson?_toJson {m : Metadata} (h : m.Fits) : ofJson? m.toJson = some m := by
  obtain ⟨⟨depth, nodes⟩, hrecord, rfl, hlookup⟩ :=
    record_of_accepted names_nodup (accepted_written h (maxDepth - 2))
  have hnode {name : String} {json : Json} (hwritten : m.written.lookup name = some json) :
      nodes.lookup name = some json.toNode := by
    rw [hlookup, hwritten, Option.map_some]
  have hdecode : decoder maxDepth m.toJson.toNode = .ok m := by
    have hrecord' : record fields maxDepth m.toJson.toNode = .ok ⟨maxDepth - 1, nodes⟩ := hrecord
    rw [decoder, hrecord', ok_bind,
      Record.get_ok (hnode rfl) (string_toNode _ m.repo), ok_bind,
      Record.get_ok (hnode rfl) (string_toNode _ m.user), ok_bind,
      Record.get_ok (hnode rfl) (string_toNode _ m.path), ok_bind,
      Record.get_ok (hnode rfl) (string_toNode _ m.fileName), ok_bind,
      Record.get_ok (hnode rfl) (string_toNode _ m.url), ok_bind,
      Record.get_ok (hnode rfl) (kindDecoder_toNode _ m.kind), ok_bind,
      Record.get_ok (hnode rfl) (string_toNode _ m.name), ok_bind,
      Record.get_ok (hnode rfl) (word64_toNode h.1 _), ok_bind,
      Record.get_ok (hnode rfl) (word64_toNode h.2 _), ok_bind,
      Record.get_ok (hnode rfl) (string_toNode _ m.content), ok_bind,
      Record.getD_ok (hnode rfl) (text?_toNode _ m.doc), ok_bind,
      Record.getD_ok (hnode rfl) (texts_toNode _ m.imports), ok_bind,
      Record.getD_ok (hnode rfl) (texts_toNode _ m.exports), ok_bind,
      Record.getD_ok (hnode rfl) (text?_toNode _ m.parent), ok_bind,
      Record.getD_ok (hnode rfl) (texts_toNode _ m.calls), ok_bind]
  rw [ofJson?, hdecode]
  rfl

end Chunk.Metadata
end SourceIndex
