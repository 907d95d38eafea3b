import SourceIndex.Proofs.Checked.Docstrings
import SourceIndex.Proofs.Entity.CallTargets
import SourceIndex.Proofs.Entity.Members

/-! Declarations by line numbers. The lines at which a search for members, methods or the end of a component looks
are given by numbers that other searches have found: the ends of blocks and headers, cut off at the end of the file
or of the class. All of them are numbers of lines of the file, and none ends a part before its start; so the
checked search finds the declarations. Every match of a call captures its target, so each declaration has its
calls. -/

namespace SourceIndex.Checked
open Text Text.Pattern
open Step (ok_bind mapM_ok)

/-- Lines `start` to `stop` as one text, by line numbers; lines past the end are not there. -/
def textOf (lines : List Chars) (start stop : Nat) : Checked Chars :=
  if lines.isEmpty || lines.length ≤ start then return []
  else do return unlines (← slice lines start (min stop (← minus lines.length 1)))

/-- The different call targets of a text, without keywords and `skipped`. -/
def distinctCalls (skipped : Option Chars) (s : Chars) : Checked (List Chars) := do
  let names ← captured Calls.call s
  return (names.filter fun name => !Calls.stopList.contains name && skipped != some name).eraseDups.take Calls.limit

/-- The calls of the entity `own`, whose declaration may look like a call too. -/
def callsOf (own s : Chars) : Checked (List Chars) := do
  let names ← captured Calls.call s
  distinctCalls (if names.count own ≤ 1 then some own else none) s

/-- The entity of a declaration. -/
def toEntity (lines : List Chars) (symbols : Symbols) (span : Span) : Checked Entity := do
  let raw ← textOf lines span.start span.stop
  let content ← truncate (Entity.memberBudget span.kind) raw
  let calls ← callsOf span.ownName raw
  return { span.toEntity lines symbols with
    content := String.ofList content
    calls := calls.map String.ofList }

/-- The declaration that a match starts, named by its first capture. -/
def declared (doc : Checked (Option Chars)) (span : Captures → Chars → Option Chars → Span) :
    Option Captures → Checked (Option Span)
  | none => return none
  | some captures => do
    let name ← capture captures 1
    return some (span captures name (← doc))

/-! ### Scripts -/

def scriptMemberHeader (line : Chars) : Checked (Option (Chars × Bool)) :=
  match Script.method.match? line with
  | some captures => do return some (← capture captures 1, false)
  | none =>
    match Script.arrowProperty.match? line with
    | some captures => do return some (← capture captures 1, true)
    | none => return none

/-- The lines of a member hold a brace, or it is an arrow function. -/
def scriptHasBody (lines : List Chars) (start stop : Nat) (isArrow : Bool) : Checked Bool :=
  if isArrow then return true else do return (← slice lines start stop).any (·.contains '\x7b')

/-- The members of the class on lines `start` to `stop` from line `j` on, in at most `fuel` rounds. -/
def scriptMembersFrom (lines : List Chars) (depths : List Int) (start stop : Nat) :
    Nat → Nat → Checked (List Script.Member)
  | 0, _ => .error .endless
  | fuel + 1, j =>
    if j ≤ stop then do
      if depths[← minus j start]? ≠ some 1 then scriptMembersFrom lines depths start stop fuel (j + 1)
      else
        match ← scriptMemberHeader (← item lines j) with
        | none => scriptMembersFrom lines depths start stop fuel (j + 1)
        | some (name, isArrow) =>
          let last := min (Braces.blockEnd lines j) stop
          let hasBody ← scriptHasBody lines j last isArrow
          let later ← scriptMembersFrom lines depths start stop fuel (last + 1)
          return if !Script.methodKeywords.contains name && hasBody then ⟨name, j, last⟩ :: later else later
    else return []

def scriptMethods (lines : List Chars) (className : Chars) (start stop : Nat) : Checked (List Span) := do
  let found ← scriptMembersFrom lines (Braces.depths lines start stop) start stop (stop + 1) (start + 1)
  found.mapM fun member => do
    return { Script.methodSpan lines className member with doc := ← docAbove lines member.start }

def scriptClasses (lines : List Chars) (i : Nat) (line : Chars) : Checked (List Span) := do
  let stop := Braces.blockEnd lines i
  match ← declared (docAbove lines i) (fun captures name doc =>
      ⟨.classDef, name, i, stop, doc, captures.get? 2, some name⟩) (Script.classHeader.match? line) with
  | none => return []
  | some span => return span :: (← scriptMethods lines span.name i stop)

def scriptFunction (lines : List Chars) (i : Nat) (line : Chars) : Checked (Option Span) :=
  declared (docAbove lines i) (fun _ name doc =>
      ⟨.function, name, i, Braces.blockEnd lines i, doc, none, some name⟩)
    (Script.functionHeader.match? line <|> Script.arrowHeader.match? line)

def scriptComponent (lines : List Chars) (i : Nat) (line : Chars) : Checked (Option Span) :=
  match Script.componentHeader.match? line with
  | none => return none
  | some captures => do
    if containsText "return (".toList (← textOf lines i (Braces.blockEnd lines i)) then
      let last ← minus lines.length 1
      declared (docAbove lines i) (fun _ name doc =>
        ⟨.component, name, i, min (i + Script.componentReach) last, doc, none, some name⟩) (some captures)
    else return none

def scriptSpans (lines : List Chars) (withComponents : Bool) : Checked (List Span) := do
  let classes ← lines.zipIdx.mapM fun (line, i) => scriptClasses lines i line
  let functions ← lines.zipIdx.mapM fun (line, i) => scriptFunction lines i line
  let components ←
    if withComponents then lines.zipIdx.mapM fun (line, i) => scriptComponent lines i line else pure []
  return classes.flatten ++ functions.reduceOption ++ components.reduceOption

/-! ### Python -/

def pythonDoc (lines : List Chars) (i : Nat) : Checked (Option Chars) := do
  match ← docAbove lines i with
  | some doc => return some doc
  | none => docInBody lines (Indentation.headerEnd lines i)

def pythonMethod (lines : List Chars) (className : Chars) (width i : Nat) : Checked (Option Span) := do
  let line ← item lines i
  if Indentation.indent line ≠ width then return none
  else
    declared (pythonDoc lines i) (fun _ name doc =>
        ⟨.method, className ++ ['.'] ++ name, i, Indentation.blockEnd lines i, doc, some className, none⟩)
      (Python.indentedDefinition.match? line)

def pythonMethods (lines : List Chars) (className : Chars) (start stop : Nat) : Checked (List Span) :=
  match Indentation.innerIndent lines start stop with
  | none => return []
  | some width => do
    let first := Indentation.headerEnd lines start + 1
    let last := min stop (lines.length - 1)
    return (← (List.range' first (last + 1 - first)).mapM (pythonMethod lines className width)).reduceOption

def pythonClasses (lines : List Chars) (i : Nat) (line : Chars) : Checked (List Span) := do
  let stop := Indentation.blockEnd lines i
  match ← declared (pythonDoc lines i) (fun captures name doc =>
      ⟨.classDef, name, i, stop, doc, (captures.get? 2).bind Python.parent?,
        if Indentation.indent line = 0 then some name else none⟩) (Python.classHeader.match? line) with
  | none => return []
  | some span => return span :: (← pythonMethods lines span.name i stop)

def pythonFunction (lines : List Chars) (i : Nat) (line : Chars) : Checked (Option Span) :=
  declared (pythonDoc lines i) (fun _ name doc =>
    ⟨.function, name, i, Indentation.blockEnd lines i, doc, none, some name⟩) (Python.definition.match? line)

def pythonSpans (lines : List Chars) : Checked (List Span) := do
  let classes ← lines.zipIdx.mapM fun (line, i) => pythonClasses lines i line
  let functions ← lines.zipIdx.mapM fun (line, i) => pythonFunction lines i line
  return classes.flatten ++ functions.reduceOption

/-- The declarations of a text in the given language. -/
def declarations (lines : List Chars) (language : Language) (withComponents : Bool) : Checked (List Span) :=
  match language with
  | .script => scriptSpans lines withComponents
  | .python => pythonSpans lines
  | .other => return []

/-! ### Texts and entities -/

section
variable {lines : List Chars}

theorem textOf_eq {start stop : Nat} (h : start ≤ stop + 1) :
    textOf lines start stop = .ok (Entity.textOf lines start stop) := by
  rw [textOf, Entity.textOf]
  by_cases hstart : start < lines.length
  · have hne : ¬(lines.isEmpty || lines.length ≤ start) = true := by
      cases lines with
      | nil => exact absurd hstart (Nat.not_lt_zero _)
      | cons => simpa using hstart
    rw [if_neg hne, minus_of_le (Nat.one_le_of_lt hstart), ok_bind, slice_of_le (by omega) (by omega), ok_bind,
      List.drop_take]
    have htake : (lines.drop start).take (min stop (lines.length - 1) + 1 - start) =
        (lines.drop start).take (stop + 1 - start) := by
      rw [List.take_eq_take_iff, List.length_drop]
      omega
    rw [htake]
    rfl
  · have hnone : (lines.isEmpty || lines.length ≤ start) = true := by
      simp [Nat.le_of_not_lt hstart]
    rw [if_pos hnone, List.drop_eq_nil_of_le (Nat.le_of_not_lt hstart), List.take_nil]
    rfl

theorem captured_call (s : Chars) : captured Calls.call s = .ok (Calls.targets s) := by
  rw [captured_eq rfl, Calls.captured_call]

theorem distinctCalls_eq (skipped : Option Chars) (s : Chars) :
    distinctCalls skipped s = .ok (Calls.distinct skipped s) := by
  rw [distinctCalls, captured_call]
  rfl

theorem callsOf_eq (own s : Chars) : callsOf own s = .ok (Calls.ofEntity own s) := by
  rw [callsOf, captured_call, ok_bind, distinctCalls_eq]
  rfl

theorem toEntity_eq (symbols : Symbols) {span : Span} (h : span.start ≤ span.stop) :
    toEntity lines symbols span = .ok (span.toEntity lines symbols) := by
  rw [toEntity, textOf_eq (Nat.le_succ_of_le h), ok_bind, truncate_eq, ok_bind, callsOf_eq]
  rfl

theorem declared_eq {found : Option Captures} (hname : ∀ captures, found = some captures → captures.Has 1)
    {docOf : Checked (Option Chars)} {doc : Option Chars} (hdoc : docOf = .ok doc)
    (span : Captures → Chars → Option Chars → Span) :
    declared docOf span found = .ok (found.map fun captures => span captures (captures.get 1) doc) := by
  cases found with
  | none => rfl
  | some captures =>
      rw [declared, capture_of_has (hname captures rfl), ok_bind, hdoc]
      rfl

/-! ### Members of classes in scripts -/

theorem scriptMemberHeader_eq (line : Chars) :
    scriptMemberHeader line = .ok (Script.memberHeader? line) := by
  have hmethod : Script.method.Binds 1 = true := rfl
  have harrow : Script.arrowProperty.Binds 1 = true := rfl
  rw [scriptMemberHeader, Script.memberHeader?]
  cases hfound : Script.method.match? line with
  | some captures =>
      simp only
      rw [capture_of_has (has_of_match? hmethod hfound)]
      rfl
  | none =>
      cases hproperty : Script.arrowProperty.match? line with
      | some captures =>
          simp only
          rw [capture_of_has (has_of_match? harrow hproperty)]
          rfl
      | none => rfl

theorem scriptHasBody_eq {start stop : Nat} (hstart : start ≤ stop + 1) (hstop : stop < lines.length)
    (isArrow : Bool) :
    scriptHasBody lines start stop isArrow =
      .ok (isArrow || ((lines.drop start).take (stop + 1 - start)).any (·.contains '\x7b')) := by
  cases isArrow with
  | true => rfl
  | false =>
      rw [scriptHasBody, slice_of_le hstart hstop, List.drop_take]
      rfl

/-- One round of the search for members: a line that starts none is passed, and below a member the search goes on
after its last line. -/
theorem scriptMembersFrom_step {start stop j : Nat} (hstart : start ≤ j) (hj : j ≤ stop)
    (hstop : stop < lines.length) (fuel : Nat) :
    scriptMembersFrom lines (Braces.depths lines start stop) start stop (fuel + 1) j =
      match Script.headerAt? lines start j with
      | none => scriptMembersFrom lines (Braces.depths lines start stop) start stop fuel (j + 1)
      | some (name, isArrow) => do
        let later ← scriptMembersFrom lines (Braces.depths lines start stop) start stop fuel
          ((Script.memberAt lines stop j name).stop + 1)
        return if Script.isMember lines (Script.memberAt lines stop j name) isArrow then
          Script.memberAt lines stop j name :: later else later := by
  have hdepth : (Braces.depths lines start stop)[j - start]? = some (Braces.depthAt lines start j) := by
    have hat : (Braces.depths lines start stop)[j - start]? =
        some (Braces.depthAt lines start (start + (j - start))) := Braces.getElem?_depths (by omega) hstop
    rwa [Nat.add_sub_cancel' hstart] at hat
  have hline := getElem?_lineAt (Nat.lt_of_le_of_lt hj hstop)
  rw [scriptMembersFrom, if_pos hj, minus_of_le hstart, ok_bind, hdepth, Script.headerAt?, hline]
  by_cases hone : Braces.depthAt lines start j = 1
  · rw [if_neg (by simp [hone]), item_of_some hline, ok_bind, scriptMemberHeader_eq, ok_bind, if_pos hone,
      Option.bind_some]
    cases hheader : Script.memberHeader? (lineAt lines j) with
    | none => rfl
    | some named =>
        obtain ⟨name, isArrow⟩ := named
        obtain ⟨hge, hle⟩ : j ≤ min (Braces.blockEnd lines j) stop ∧ min (Braces.blockEnd lines j) stop ≤ stop :=
          Script.memberAt_bounds hj name
        simp only
        rw [scriptHasBody_eq (Nat.le_succ_of_le hge) (Nat.lt_of_le_of_lt hle hstop), ok_bind]
        rfl
  · rw [if_pos (by simpa using hone), if_neg hone]

/-- The search for members by line numbers makes the steps of a scan; each goes on below the one before, so there
are no more of them than lines. -/
theorem scriptMembersFrom_eq {start stop j fuel : Nat} {visited : List Nat} {found : List Script.Member}
    (hscan : Script.Scan lines start stop j visited found) (hstart : start ≤ j) (hstop : stop < lines.length)
    (hfuel : stop + 1 - j < fuel) :
    scriptMembersFrom lines (Braces.depths lines start stop) start stop fuel j = .ok found := by
  induction fuel generalizing j visited found with
  | zero => exact absurd hfuel (Nat.not_lt_zero _)
  | succ fuel ih =>
      cases hscan with
      | done hj =>
          rw [scriptMembersFrom, if_neg (Nat.not_le_of_lt hj)]
          rfl
      | pass hj hnone hnext =>
          rw [scriptMembersFrom_step hstart hj hstop, hnone]
          exact ih hnext (Nat.le_succ_of_le hstart) (by omega)
      | @reject _ name _ _ _ hj hsome hmember hnext =>
          -- The search goes on below the last line of the member, which is line `j` at least.
          have hge : j ≤ (Script.memberAt lines stop j name).stop := (Script.memberAt_bounds hj name).1
          rw [scriptMembersFrom_step hstart hj hstop, hsome]
          simp only [hmember]
          rw [ih hnext (by omega) (by omega)]
          rfl
      | @accept _ name _ _ _ hj hsome hmember hnext =>
          have hge : j ≤ (Script.memberAt lines stop j name).stop := (Script.memberAt_bounds hj name).1
          rw [scriptMembersFrom_step hstart hj hstop, hsome]
          simp only [hmember]
          rw [ih hnext (by omega) (by omega)]
          rfl

theorem scriptMethods_eq {start stop : Nat} (hstart : start ≤ stop) (hstop : stop < lines.length)
    (className : Chars) :
    scriptMethods lines className start stop =
      .ok ((Script.members lines start stop).map (Script.methodSpan lines className)) := by
  obtain ⟨visited, hscan⟩ := Script.scan_members hstart hstop
  rw [scriptMethods, scriptMembersFrom_eq hscan (Nat.le_succ start) hstop (by omega), ok_bind]
  refine mapM_ok fun member _ => ?_
  rw [docAbove_eq]
  rfl

/-! ### Declarations in scripts -/

section
variable {i : Nat} (hi : i < lines.length) (line : Chars)
include hi

theorem scriptClasses_eq : scriptClasses lines i line = .ok (Script.classSpans lines i line) := by
  have hclass : Script.classHeader.Binds 1 = true := rfl
  rw [scriptClasses, Script.classSpans,
    declared_eq (fun _ hfound => has_of_match? hclass hfound) (docAbove_eq lines i), ok_bind]
  cases Script.classHeader.match? line with
  | none => rfl
  | some captures =>
      simp only [Option.map_some]
      rw [scriptMethods_eq (Braces.le_blockEnd lines i) (Braces.blockEnd_lt hi)]
      rfl

omit hi in
theorem scriptFunction_eq : scriptFunction lines i line = .ok (Script.functionSpan? lines i line) := by
  have hfunction : Script.functionHeader.Binds 1 = true := rfl
  have harrow : Script.arrowHeader.Binds 1 = true := rfl
  refine declared_eq (fun captures hfound => ?_) (docAbove_eq lines i) _
  rcases (Option.orElse_eq_some _ _ _).mp hfound with hfirst | ⟨_, hsecond⟩
  · exact has_of_match? hfunction hfirst
  · exact has_of_match? harrow hsecond

theorem scriptComponent_eq : scriptComponent lines i line = .ok (Script.componentSpan? lines i line) := by
  have hcomponent : Script.componentHeader.Binds 1 = true := rfl
  rw [scriptComponent, Script.componentSpan?]
  cases hfound : Script.componentHeader.match? line with
  | none => rfl
  | some captures =>
      simp only
      rw [textOf_eq (Nat.le_succ_of_le (Braces.le_blockEnd lines i)), ok_bind, minus_of_le (Nat.one_le_of_lt hi),
        ok_bind, declared_eq (fun _ hsome => has_of_match? hcomponent (hfound.trans hsome)) (docAbove_eq lines i)]
      split <;> rfl

end

/-- What is found on each line, line by line. -/
theorem mapM_zipIdx {β : Type} {f : Nat → Chars → Checked β} {g : Nat → Chars → β}
    (h : ∀ {i : Nat}, i < lines.length → ∀ line, f i line = .ok (g i line)) :
    (lines.zipIdx.mapM fun (line, i) => f i line) = .ok (lines.zipIdx.map fun (line, i) => g i line) :=
  mapM_ok fun numbered hmem => h (List.snd_lt_of_mem_zipIdx hmem) numbered.1

theorem reduceOption_map {α β : Type} (xs : List α) (f : α → Option β) :
    (xs.map f).reduceOption = xs.filterMap f :=
  List.filterMap_map

theorem scriptSpans_eq (lines : List Chars) (withComponents : Bool) :
    scriptSpans lines withComponents = .ok (Script.spans lines withComponents) := by
  rw [scriptSpans, mapM_zipIdx scriptClasses_eq, ok_bind,
    mapM_zipIdx (f := scriptFunction lines) fun _ => scriptFunction_eq, ok_bind, mapM_zipIdx scriptComponent_eq,
    Script.spans, reduceOption_map, ← List.flatMap_def]
  cases withComponents with
  | true =>
      simp only [if_true, ok_bind, reduceOption_map]
      rfl
  | false => rfl

/-! ### Declarations in Python -/

theorem pythonDoc_eq (lines : List Chars) (i : Nat) : pythonDoc lines i = .ok (Python.doc? lines i) := by
  rw [pythonDoc, docAbove_eq, ok_bind, Python.doc?, docInBody_eq]
  cases Docstring.before? lines i <;> rfl

theorem pythonMethod_eq {i : Nat} (hi : i < lines.length) (className : Chars) (width : Nat) :
    pythonMethod lines className width i = .ok (Python.methodSpan? lines className width i (lineAt lines i)) := by
  have hdefinition : Python.indentedDefinition.Binds 1 = true := rfl
  rw [pythonMethod, item_of_some (getElem?_lineAt hi), ok_bind, Python.methodSpan?]
  split
  · rfl
  · exact declared_eq (fun _ hfound => has_of_match? hdefinition hfound) (pythonDoc_eq lines i) _

/-- A part of the numbered lines of a file, by line numbers. -/
theorem drop_take_zipIdx {first stop : Nat} (hfirst : 0 < first) :
    (lines.zipIdx.take (stop + 1)).drop first =
      (List.range' first (min stop (lines.length - 1) + 1 - first)).map fun j => (lineAt lines j, j) := by
  refine List.ext_getElem? fun k => ?_
  rw [List.getElem?_drop, List.getElem?_take, List.getElem?_map, List.getElem?_zipIdx, Nat.zero_add]
  by_cases hk : first + k < stop + 1 ∧ first + k < lines.length
  · rw [if_pos hk.1, getElem?_lineAt hk.2, List.getElem?_range' (by omega), Nat.one_mul]
    rfl
  · have hnone : (List.range' first (min stop (lines.length - 1) + 1 - first))[k]? = none := by
      rw [List.getElem?_eq_none_iff, List.length_range']
      omega
    rw [hnone]
    split
    · rw [List.getElem?_eq_none (by omega)]
      rfl
    · rfl

theorem pythonMethods_eq (lines : List Chars) (className : Chars) (start stop : Nat) :
    pythonMethods lines className start stop = .ok (Python.methodSpans lines className start stop) := by
  rw [pythonMethods, Python.methodSpans]
  cases Indentation.innerIndent lines start stop with
  | none => rfl
  | some width =>
      have hnumber : ∀ j ∈ List.range' (Indentation.headerEnd lines start + 1)
          (min stop (lines.length - 1) + 1 - (Indentation.headerEnd lines start + 1)), j < lines.length := by
        intro j hj
        rw [List.mem_range'_1] at hj
        omega
      simp only [drop_take_zipIdx (Nat.succ_pos _), List.filterMap_map]
      rw [mapM_ok fun j hj => pythonMethod_eq (hnumber j hj) className width, ok_bind, reduceOption_map]
      rfl

theorem pythonClasses_eq (lines : List Chars) (i : Nat) (line : Chars) :
    pythonClasses lines i line = .ok (Python.classSpans lines i line) := by
  have hclass : Python.classHeader.Binds 1 = true := rfl
  rw [pythonClasses, Python.classSpans,
    declared_eq (fun _ hfound => has_of_match? hclass hfound) (pythonDoc_eq lines i), ok_bind]
  cases Python.classHeader.match? line with
  | none => rfl
  | some captures =>
      simp only [Option.map_some]
      rw [pythonMethods_eq]
      rfl

theorem pythonFunction_eq (lines : List Chars) (i : Nat) (line : Chars) :
    pythonFunction lines i line = .ok (Python.functionSpan? lines i line) := by
  have hdefinition : Python.definition.Binds 1 = true := rfl
  exact declared_eq (fun _ hfound => has_of_match? hdefinition hfound) (pythonDoc_eq lines i) _

theorem pythonSpans_eq (lines : List Chars) : pythonSpans lines = .ok (Python.spans lines) := by
  rw [pythonSpans, mapM_zipIdx (f := pythonClasses lines) fun _ => pythonClasses_eq lines _, ok_bind,
    mapM_zipIdx (f := pythonFunction lines) fun _ => pythonFunction_eq lines _, ok_bind, reduceOption_map,
    ← List.flatMap_def]
  rfl

end

/-- The declarations of a text are found by line numbers that it has. -/
theorem declarations_eq (lines : List Chars) (language : Language) (withComponents : Bool) :
    declarations lines language withComponents = .ok (SourceFile.declarations lines language withComponents) := by
  cases language with
  | script => exact scriptSpans_eq lines withComponents
  | python => exact pythonSpans_eq lines
  | other => rfl

end SourceIndex.Checked
