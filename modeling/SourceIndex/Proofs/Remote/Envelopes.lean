import SourceIndex.Proofs.Chunk.Metadata
import SourceIndex.Proofs.Step
import SourceIndex.Remote.Upstash

/-! What the envelope of an answer says, by the tree of its text. A result and an error stand under their names in an
object, at most once each, or side by side in an array; what is missing or `null` is not there. Of other fields of the
object only the grammar matters. -/

namespace SourceIndex
open Step (ok_bind)

namespace Json.Decoder

/-! ### Fields -/

/-- The values that stand under a name. -/
def valuesUnder (name : String) (fields : List (Option String × Node)) : List Node :=
  (fields.filter (·.1 == some name)).map Prod.snd

/-- What the values under a name say: nothing if there is none or if it is `null`, and otherwise what it is decoded to.
Several values say nothing that is accepted. -/
inductive Says {α : Type} (decoder : Decoder α) (depth : Nat) : List Node → Option α → Prop where
  | missing : Says decoder depth [] none
  | null : Says decoder depth [.null] none
  | value {node : Node} {value : α} (hnode : node ≠ .null) (hvalue : decoder depth node = .ok value) :
      Says decoder depth [node] (some value)

section
variable {α : Type} {decoder : Decoder α} {depth : Nat} {node : Node} {value : Option α}

theorem nullable_of_ne (hnode : node ≠ .null) : nullable decoder depth node = (decoder depth node).map some := by
  cases node with
  | null => exact absurd rfl hnode
  | bool _ | number _ | string _ | hugeNumber | halfText | array _ _ | object _ _ | broken => rfl

theorem nullable_eq_ok_iff : nullable decoder depth node = .ok value ↔ Says decoder depth [node] value := by
  constructor
  · intro h
    by_cases hnode : node = .null
    · subst hnode
      cases h
      exact .null
    · rw [nullable_of_ne hnode] at h
      cases hvalue : decoder depth node with
      | error fault =>
          rw [hvalue] at h
          cases h
      | ok a =>
          rw [hvalue] at h
          cases h
          exact .value hnode hvalue
  · rintro (_ | _ | ⟨hnode, hvalue⟩)
    · rfl
    · rw [nullable_of_ne hnode, hvalue]
      rfl

theorem Says.length_le {values : List Node} (h : Says decoder depth values value) : values.length ≤ 1 := by
  cases h <;> simp

theorem check_eq_ok_iff {name : String} {absence : Absence} :
    (field name (nullable decoder) absence).check depth node = .ok () ↔ ∃ value, Says decoder depth [node] value := by
  simp only [← nullable_eq_ok_iff, field]
  cases nullable decoder depth node with
  | error fault =>
      constructor
      · intro h
        cases h
      · intro h
        cases h.choose_spec
  | ok value => exact ⟨fun _ => ⟨value, rfl⟩, fun _ => rfl⟩

/-- The values under a name that says something are accepted. -/
theorem Says.check {values : List Node} (h : Says decoder depth values value) {name : String} {absence : Absence}
    (hnode : node ∈ values) : (field name (nullable decoder) absence).check depth node = .ok () := by
  have hvalues : values = [node] := by
    cases h <;> simp_all
  subst hvalues
  exact check_eq_ok_iff.mpr ⟨value, h⟩

/-- What is taken from a record for a field that may be missing, when its value was found in the object. -/
theorem getD_eq_ok_iff {nodes : List (String × Node)} {name : String} {values : List Node}
    (hlength : values.length ≤ 1) (hlookup : nodes.lookup name = values.head?) :
    Record.getD ⟨depth, nodes⟩ name (nullable decoder) none = .ok value ↔ Says decoder depth values value := by
  rw [Record.getD, hlookup]
  match values, hlength with
  | [], _ =>
      constructor
      · rintro ⟨⟩
        exact .missing
      · rintro ⟨⟩
        rfl
  | [node], _ => exact nullable_eq_ok_iff

end

/-! ### Objects -/

/-- A field is known and its value accepted, or it is unknown and its text follows the grammar. -/
def Admits (known : List Field) (depth : Nat) (field : Option String × Node) : Prop :=
  ∃ key, field.1 = some key ∧
    match known.find? (·.name == key) with
    | none => field.2.isWhole = true
    | some expected => expected.check depth field.2 = .ok ()

section
variable {known : List Field} {depth : Nat} {fields : List (Option String × Node)} {found : List (String × Node)}

theorem valuesUnder_cons (name : String) (key : Option String) (node : Node) :
    valuesUnder name ((key, node) :: fields) =
      if key = some name then node :: valuesUnder name fields else valuesUnder name fields := by
  by_cases hkey : key = some name <;> simp [valuesUnder, hkey]

theorem mem_valuesUnder {name : String} {node : Node} (h : (some name, node) ∈ fields) :
    node ∈ valuesUnder name fields :=
  List.mem_map.mpr ⟨_, List.mem_filter.mpr ⟨h, beq_self_eq_true _⟩, rfl⟩

theorem name_ne_of_find?_eq_none {key : String} (h : known.find? (·.name == key) = none) {expected : Field}
    (hexpected : expected ∈ known) : ¬some key = some expected.name := fun heq =>
  List.find?_eq_none.mp h expected hexpected (beq_iff_eq.mpr (Option.some.inj heq).symm)

/-- What is gone through has only admitted fields, known ones at most once; and what is found under a known name is
what stands there. -/
theorem of_recordFields {out : List (String × Node)} (h : recordFields known depth fields found = .ok out) :
    (∀ field ∈ fields, Admits known depth field) ∧ ∀ expected ∈ known,
      (valuesUnder expected.name fields).length + (found.lookup expected.name).toList.length ≤ 1 ∧
      out.lookup expected.name = (valuesUnder expected.name fields).head?.or (found.lookup expected.name) := by
  induction fields generalizing found with
  | nil =>
      cases h
      refine ⟨nofun, fun expected _ => ⟨?_, rfl⟩⟩
      cases out.lookup expected.name <;> simp [valuesUnder]
  | cons field rest ih =>
      obtain ⟨key, node⟩ := field
      cases key with
      | none => cases h
      | some key =>
          rw [recordFields] at h
          cases hfind : known.find? (·.name == key) with
          | none =>
              rw [hfind] at h
              dsimp only at h
              split at h
              · obtain ⟨hadmits, hknown⟩ := ih h
                refine ⟨List.forall_mem_cons.mpr ⟨⟨key, rfl, by simpa [hfind]⟩, hadmits⟩, fun expected hexpected => ?_⟩
                rw [valuesUnder_cons, if_neg (name_ne_of_find?_eq_none hfind hexpected)]
                exact hknown expected hexpected
              · cases h
          | some first =>
              rw [hfind] at h
              dsimp only at h
              split at h
              · cases h
              · rename_i hnew
                obtain ⟨_, hcheck, h⟩ := bind_ok h
                obtain ⟨hadmits, hknown⟩ := ih h
                refine ⟨List.forall_mem_cons.mpr ⟨⟨key, rfl, by simpa [hfind]⟩, hadmits⟩, fun expected hexpected => ?_⟩
                have hrest := hknown expected hexpected
                rw [List.lookup_cons] at hrest
                rw [valuesUnder_cons]
                by_cases hkey : key = expected.name
                · subst hkey
                  rw [beq_self_eq_true] at hrest
                  have hnone : found.lookup expected.name = none := Option.not_isSome_iff_eq_none.mp hnew
                  have hempty : valuesUnder expected.name rest = [] := by
                    rw [← List.length_eq_zero_iff]
                    simpa using hrest.1
                  rw [if_pos rfl, hnone]
                  rw [hempty] at hrest ⊢
                  exact ⟨by simp, by simpa using hrest.2⟩
                · rw [beq_false_of_ne (Ne.symm hkey)] at hrest
                  rw [if_neg (fun heq => hkey (Option.some.inj heq))]
                  exact hrest

/-- An object whose fields are admitted, known ones at most once, is gone through. -/
theorem exists_recordFields (hadmits : ∀ field ∈ fields, Admits known depth field)
    (honce : ∀ expected ∈ known,
      (valuesUnder expected.name fields).length + (found.lookup expected.name).toList.length ≤ 1) :
    ∃ out, recordFields known depth fields found = .ok out := by
  induction fields generalizing found with
  | nil => exact ⟨found, rfl⟩
  | cons field rest ih =>
      obtain ⟨⟨key, hkey, hfield⟩, hrest⟩ := List.forall_mem_cons.mp hadmits
      obtain ⟨_, node⟩ := field
      cases hkey
      rw [recordFields]
      cases hfind : known.find? (·.name == key) with
      | none =>
          rw [hfind] at hfield
          refine (if_pos hfield).symm ▸ ih hrest fun expected hexpected => ?_
          have hexpected' := honce expected hexpected
          rwa [valuesUnder_cons, if_neg (name_ne_of_find?_eq_none hfind hexpected)] at hexpected'
      | some first =>
          rw [hfind] at hfield
          have hname : first.name = key := by simpa using List.find?_some hfind
          have hnew : found.lookup key = none := by
            have hfirst := honce first (List.mem_of_find?_eq_some hfind)
            rw [valuesUnder_cons, hname, if_pos rfl] at hfirst
            cases hlookup : found.lookup key with
            | none => rfl
            | some old => simp [hlookup] at hfirst
          have hlater : ∀ expected ∈ known, (valuesUnder expected.name rest).length +
              (((key, node) :: found).lookup expected.name).toList.length ≤ 1 := by
            intro expected hexpected
            have hexpected' := honce expected hexpected
            rw [valuesUnder_cons] at hexpected'
            rw [List.lookup_cons]
            by_cases hkey : key = expected.name
            · subst hkey
              simpa [hnew, Nat.add_comm] using hexpected'
            · rw [beq_false_of_ne (Ne.symm hkey)]
              rwa [if_neg (fun heq => hkey (Option.some.inj heq))] at hexpected'
          obtain ⟨out, hout⟩ := ih hrest hlater
          refine ⟨out, ?_⟩
          dsimp only
          rw [hnew, hfield]
          exact hout

end
end Json.Decoder

namespace Remote.Upstash
open Json Json.Decoder

/-! ### Envelopes -/

/-- What a document says as an envelope: its result and its error. -/
inductive Envelope {α : Type} (decoder : Json.Decoder α) : Document → Option α → Option String → Prop where
  | object {fields : List (Option String × Node)} {result : Option α} {message : Option String}
      (hothers : ∀ field ∈ fields, ∃ key, field.1 = some key ∧
        (key ≠ "result" → key ≠ "error" → field.2.isWhole = true))
      (hresult : Says decoder (maxDepth - 1) (valuesUnder "result" fields) result)
      (herror : Says string (maxDepth - 1) (valuesUnder "error" fields) message) :
      Envelope decoder ⟨.object fields true, true⟩ result message
  | array {first second : Node} {result : Option α} {message : Option String}
      (hresult : Says decoder (maxDepth - 1) [first] result)
      (herror : Says string (maxDepth - 1) [second] message) :
      Envelope decoder ⟨.array [first, second] true, true⟩ result message

section
variable {α : Type} (decoder : Json.Decoder α) {depth : Nat} {result : Option α} {message : Option String}

/-- The fields of an envelope. -/
def envelopeFields : List Field :=
  [field "result" (nullable decoder) .fromObject, field "error" errorDecoder .fromObject]

theorem admits_envelopeFields {key : String} {node : Node} (h : Admits (envelopeFields decoder) depth (some key, node))
    (hresult : key ≠ "result") (herror : key ≠ "error") : node.isWhole = true := by
  obtain ⟨_, hkey, h⟩ := h
  cases hkey
  simpa [envelopeFields, field, List.find?_cons, beq_false_of_ne hresult.symm, beq_false_of_ne herror.symm] using h

theorem admits_of {key : String} {node : Node} (hother : key ≠ "result" → key ≠ "error" → node.isWhole = true)
    (hresult : key = "result" → (field "result" (nullable decoder) .fromObject).check depth node = .ok ())
    (herror : key = "error" → (field "error" errorDecoder .fromObject).check depth node = .ok ()) :
    Admits (envelopeFields decoder) depth (some key, node) := by
  refine ⟨key, rfl, ?_⟩
  rw [envelopeFields, List.find?_cons, List.find?_cons]
  by_cases hkey : key = "result"
  · subst hkey
    exact hresult rfl
  · by_cases hkey' : key = "error"
    · subst hkey'
      exact herror rfl
    · simp only [field, beq_false_of_ne (Ne.symm hkey), beq_false_of_ne (Ne.symm hkey')]
      exact hother hkey hkey'

/-- An envelope is a record of its two fields. -/
theorem envelope_eq_ok_iff {node : Node} : envelope decoder depth node = .ok (result, message) ↔
    ∃ found, record (envelopeFields decoder) depth node = .ok found ∧
      found.getD "result" (nullable decoder) none = .ok result ∧
      found.getD "error" errorDecoder none = .ok message := by
  constructor
  · intro h
    obtain ⟨found, hfound, h⟩ := bind_ok h
    obtain ⟨_, hresult, h⟩ := bind_ok h
    obtain ⟨_, hmessage, h⟩ := bind_ok h
    cases h
    exact ⟨found, hfound, hresult, hmessage⟩
  · rintro ⟨found, hfound, hresult, hmessage⟩
    rw [envelopeFields] at hfound
    rw [envelope, hfound, ok_bind, hresult, ok_bind, hmessage, ok_bind]

theorem record_object_eq_ok_iff {fields : List (Option String × Node)} {closed : Bool} {found : Record} :
    record (envelopeFields decoder) (depth + 1) (.object fields closed) = .ok found ↔ closed = true ∧
      found.depth = depth ∧ recordFields (envelopeFields decoder) depth fields [] = .ok found.nodes := by
  rw [record]
  cases recordFields (envelopeFields decoder) depth fields [] with
  | error fault =>
      constructor
      · intro h
        cases h
      · intro h
        cases h.2.2
  | ok nodes =>
      rw [ok_bind]
      cases closed with
      | false =>
          constructor
          · intro h
            cases h
          · intro h
            cases h.1
      | true =>
          obtain ⟨depth', nodes'⟩ := found
          change Except.ok (⟨depth, nodes⟩ : Record) = .ok ⟨depth', nodes'⟩ ↔ _
          simp [eq_comm]

theorem envelope_object_iff {fields : List (Option String × Node)} {closed : Bool} :
    envelope decoder (depth + 1) (.object fields closed) = .ok (result, message) ↔ closed = true ∧
      (∀ field ∈ fields, ∃ key, field.1 = some key ∧ (key ≠ "result" → key ≠ "error" → field.2.isWhole = true)) ∧
      Says decoder depth (valuesUnder "result" fields) result ∧ Says string depth (valuesUnder "error" fields) message := by
  have hresultMem : field "result" (nullable decoder) .fromObject ∈ envelopeFields decoder := List.mem_cons_self
  have herrorMem : field "error" errorDecoder .fromObject ∈ envelopeFields decoder :=
    List.mem_cons_of_mem _ List.mem_cons_self
  rw [envelope_eq_ok_iff]
  constructor
  · rintro ⟨⟨depth', nodes⟩, hrecord, hresult, hmessage⟩
    obtain ⟨rfl, rfl, hnodes⟩ := (record_object_eq_ok_iff decoder).mp hrecord
    obtain ⟨hadmits, hknown⟩ := of_recordFields hnodes
    obtain ⟨honceResult, hlookResult⟩ := hknown _ hresultMem
    obtain ⟨honceError, hlookError⟩ := hknown _ herrorMem
    rw [List.lookup_nil, Option.or_none] at hlookResult hlookError
    refine ⟨rfl, fun field hfield => ?_, (getD_eq_ok_iff honceResult hlookResult).mp hresult,
      (getD_eq_ok_iff honceError hlookError).mp hmessage⟩
    obtain ⟨key, hkey, _⟩ := hadmits field hfield
    obtain ⟨_, node⟩ := field
    cases hkey
    exact ⟨key, rfl, admits_envelopeFields decoder (hadmits _ hfield)⟩
  · rintro ⟨rfl, hothers, hresult, hmessage⟩
    have hadmits : ∀ field ∈ fields, Admits (envelopeFields decoder) depth field := by
      intro field hfield
      obtain ⟨key, hkey, hother⟩ := hothers field hfield
      obtain ⟨_, node⟩ := field
      cases hkey
      exact admits_of decoder hother (fun hkey => hresult.check (mem_valuesUnder (hkey ▸ hfield)))
        (fun hkey => hmessage.check (mem_valuesUnder (hkey ▸ hfield)))
    have honce : ∀ expected ∈ envelopeFields decoder, (valuesUnder expected.name fields).length +
        (([] : List (String × Node)).lookup expected.name).toList.length ≤ 1 :=
      List.forall_mem_cons.mpr ⟨hresult.length_le, List.forall_mem_cons.mpr ⟨hmessage.length_le, nofun⟩⟩
    obtain ⟨nodes, hnodes⟩ := exists_recordFields hadmits honce
    obtain ⟨-, hknown⟩ := of_recordFields hnodes
    have hlookResult := (hknown _ hresultMem).2
    have hlookError := (hknown _ herrorMem).2
    rw [List.lookup_nil, Option.or_none] at hlookResult hlookError
    exact ⟨⟨depth, nodes⟩, (record_object_eq_ok_iff decoder).mpr ⟨rfl, rfl, hnodes⟩,
      (getD_eq_ok_iff hresult.length_le hlookResult).mpr hresult,
      (getD_eq_ok_iff hmessage.length_le hlookError).mpr hmessage⟩

theorem recordItems_eq_ok_iff {items : List Node} {closed : Bool} {nodes : List (String × Node)} :
    recordItems depth closed (envelopeFields decoder) items = .ok nodes ↔ closed = true ∧
      ∃ first second, items = [first, second] ∧ nodes = [("result", first), ("error", second)] ∧
        (∃ result, Says decoder depth [first] result) ∧ ∃ message, Says string depth [second] message := by
  rw [envelopeFields]
  constructor
  · intro h
    match items with
    | [] => cases closed <;> cases h
    | [first] =>
        obtain ⟨_, _, h⟩ := bind_ok h
        obtain ⟨_, h, _⟩ := bind_ok h
        cases closed <;> cases h
    | [first, second] =>
        obtain ⟨_, hfirst, h⟩ := bind_ok h
        obtain ⟨_, hrest, h⟩ := bind_ok h
        cases h
        obtain ⟨_, hsecond, hrest⟩ := bind_ok hrest
        obtain ⟨_, hend, hrest⟩ := bind_ok hrest
        cases hrest
        rw [recordItems] at hend
        split at hend
        · cases hend
          exact ⟨‹_›, first, second, rfl, rfl, check_eq_ok_iff.mp hfirst, check_eq_ok_iff.mp hsecond⟩
        · cases hend
    | first :: second :: third :: rest =>
        obtain ⟨_, _, h⟩ := bind_ok h
        obtain ⟨_, h, _⟩ := bind_ok h
        obtain ⟨_, _, h⟩ := bind_ok h
        obtain ⟨_, h, _⟩ := bind_ok h
        cases h
  · rintro ⟨rfl, first, second, rfl, rfl, hfirst, hsecond⟩
    rw [recordItems, check_eq_ok_iff.mpr hfirst, ok_bind, recordItems]
    rw [show (field "error" errorDecoder .fromObject).check depth second = .ok () from check_eq_ok_iff.mpr hsecond]
    rfl

theorem envelope_array_iff {items : List Node} {closed : Bool} :
    envelope decoder (depth + 1) (.array items closed) = .ok (result, message) ↔ closed = true ∧
      ∃ first second, items = [first, second] ∧ Says decoder depth [first] result ∧ Says string depth [second] message := by
  have hrecord : ∀ found, record (envelopeFields decoder) (depth + 1) (.array items closed) = .ok found ↔
      found.depth = depth ∧ recordItems depth closed (envelopeFields decoder) items = .ok found.nodes := by
    intro found
    obtain ⟨depth', nodes'⟩ := found
    rw [record]
    cases recordItems depth closed (envelopeFields decoder) items with
    | error fault =>
        constructor
        · intro h
          cases h
        · intro h
          cases h.2
    | ok nodes =>
        change Except.ok (⟨depth, nodes⟩ : Record) = .ok ⟨depth', nodes'⟩ ↔ _
        simp [eq_comm]
  rw [envelope_eq_ok_iff]
  constructor
  · rintro ⟨⟨depth', nodes⟩, hfound, hresult, hmessage⟩
    obtain ⟨rfl, hnodes⟩ := (hrecord _).mp hfound
    obtain ⟨hclosed, first, second, rfl, rfl, -, -⟩ := (recordItems_eq_ok_iff decoder).mp hnodes
    exact ⟨hclosed, first, second, rfl, nullable_eq_ok_iff.mp hresult, nullable_eq_ok_iff.mp hmessage⟩
  · rintro ⟨hclosed, first, second, rfl, hresult, hmessage⟩
    refine ⟨⟨depth, [("result", first), ("error", second)]⟩, (hrecord _).mpr ⟨rfl, ?_⟩, ?_, ?_⟩
    · exact (recordItems_eq_ok_iff decoder).mpr ⟨hclosed, first, second, rfl, rfl, ⟨_, hresult⟩, ⟨_, hmessage⟩⟩
    · exact nullable_eq_ok_iff.mpr hresult
    · exact nullable_eq_ok_iff.mpr hmessage

/-- A document is decoded to a result and an error exactly if it says them as an envelope. -/
theorem envelope_document_iff {document : Document} :
    (envelope decoder).document document = .ok (result, message) ↔ Envelope decoder document result message := by
  obtain ⟨root, ends⟩ := document
  have hdocument : (envelope decoder).document ⟨root, ends⟩ = .ok (result, message) ↔
      envelope decoder (126 + 1) root = .ok (result, message) ∧ ends = true := by
    change (envelope decoder (126 + 1) root >>= fun value => if ends = true then .ok value else .error .grammar) = _ ↔ _
    cases envelope decoder (126 + 1) root with
    | error fault =>
        constructor
        · intro h
          cases h
        · intro h
          cases h.1
    | ok value =>
        rw [ok_bind]
        cases ends with
        | false =>
            constructor
            · intro h
              cases h
            · intro h
              cases h.2
        | true => simp
  rw [hdocument]
  constructor
  · rintro ⟨h, rfl⟩
    cases root with
    | object fields closed =>
        obtain ⟨rfl, hothers, hresult, hmessage⟩ := (envelope_object_iff decoder).mp h
        exact .object hothers hresult hmessage
    | array items closed =>
        obtain ⟨rfl, first, second, rfl, hresult, hmessage⟩ := (envelope_array_iff decoder).mp h
        exact .array hresult hmessage
    | null | bool _ | number _ | string _ | hugeNumber | halfText | broken => cases h
  · rintro (⟨hothers, hresult, hmessage⟩ | ⟨hresult, hmessage⟩)
    · exact ⟨(envelope_object_iff decoder).mpr ⟨rfl, hothers, hresult, hmessage⟩, rfl⟩
    · exact ⟨(envelope_array_iff decoder).mpr ⟨rfl, _, _, rfl, hresult, hmessage⟩, rfl⟩

end
end Remote.Upstash
end SourceIndex
