import SourceIndex.Proofs.Entity.Ranges
import SourceIndex.Proofs.Path
import SourceIndex.Proofs.Text.Distinct
import SourceIndex.Proofs.Text.Matching

/-! When a function is recorded as calling itself. The own name of a declaration has to be a call target twice, as if
the declaration were a target too. Where a name is declared by an arrow function its declaration is none, since an
equals sign or a type stands behind the name: then every target is a call, and a single one is not recorded. -/

namespace SourceIndex
open Text

namespace Calls

/-- The different targets before the first place of a name, without keywords. -/
def earlier (name s : Chars) : List Chars :=
  (((targets s).takeWhile (· != name)).filter (!stopList.contains ·)).eraseDups

theorem mem_ofEntity_iff {own s : Chars} : own ∈ ofEntity own s ↔
    2 ≤ (targets s).count own ∧ own ∉ stopList ∧ (earlier own s).length < limit := by
  by_cases htwice : 2 ≤ (targets s).count own
  · have hmem : own ∈ targets s := List.count_pos_iff.mp (by omega)
    have hfilter : (fun name => !stopList.contains name && (none : Option Chars) != some name) =
        (!stopList.contains ·) := by
      funext name
      simp
    rw [ofEntity, if_neg (by omega), distinct, hfilter, mem_take_eraseDups_iff, List.mem_filter]
    by_cases hstop : own ∈ stopList
    · simp [hstop]
    · have hkeep : (!stopList.contains own) = true := by simp [hstop]
      rw [takeWhile_ne_filter (!stopList.contains ·) hkeep]
      simp [htwice, hmem, hstop, earlier]
  · rw [ofEntity, if_pos (by omega), distinct]
    refine iff_of_false (fun hmem => ?_) (fun h => htwice h.1)
    have hkept := List.mem_eraseDups.mp (List.mem_of_mem_take hmem)
    simp at hkept

/-- Up to a character that cannot stand between a name and its bracket there is no target without a bracket. -/
theorem targets_append {s rest : Chars} {c : Char} (hs : '(' ∉ s) (hc : c = ':' ∨ c = '=') :
    targets (s ++ c :: rest) = targets rest := by
  have hfrom : ∀ reading, targetsFrom reading (s ++ c :: rest) = targetsFrom .nothing rest := by
    induction s with
    | nil =>
        intro reading
        rcases hc with rfl | rfl <;> cases reading <;> rfl
    | cons d s ih =>
        intro reading
        have hd : d ≠ '(' := fun heq => hs (heq ▸ List.mem_cons_self)
        have hlater := ih fun hmem => hs (List.mem_cons_of_mem d hmem)
        cases reading <;> simp only [List.cons_append, targetsFrom, if_neg hd] <;> split_ifs <;> exact hlater _
  exact hfrom .nothing

end Calls

namespace Span

theorem ownName_of_not_mem {span : Span} (h : '.' ∉ span.name) : span.ownName = span.name := by
  rw [Span.ownName, Path.splitOn_eq, List.splitOn_eq_singleton h]
  rfl

/-- A declaration that is no member is recorded as calling itself under this condition on its lines. -/
theorem name_mem_calls_iff {ls : List Chars} {symbols : Symbols} {span : Span} (h : '.' ∉ span.name) :
    (span.toEntity ls symbols).name ∈ (span.toEntity ls symbols).calls ↔
      2 ≤ (Calls.targets (Entity.textOf ls span.start span.stop)).count span.name ∧ span.name ∉ Calls.stopList ∧
        (Calls.earlier span.name (Entity.textOf ls span.start span.stop)).length < Calls.limit := by
  simp only [toEntity, ownName_of_not_mem h]
  rw [List.mem_map_of_injective fun _ _ => String.ofList_inj.mp, Calls.mem_ofEntity_iff]

end Span

namespace Script
open Pattern Symbols

/-- What stands before the declared name. -/
def arrowFront : Pattern := .lineStart ++ keyword? "export" ++ anyOf ["const", "let", "var"] ++ blanks1

/-- What stands behind it. -/
def arrowTail : Pattern :=
  blanks ++ looseAnnotation ++ word "=" ++ blanks ++ keyword? "async" ++
    .either (word "function" ++ .wordEdge)
      (.either (word "(" ++ .many (· != ')') ++ word ")" ++ blanks ++ looseAnnotation ++ word "=>")
        (.either (word "(" ++ .many (· != ')') ++ .lineEnd)
          (.one isNameStart ++ .many isIdentifierPart ++ blanks ++ word "=>")))

theorem arrowHeader_matchThen (k : Continuation) :
    arrowHeader.matchThen k = arrowFront.matchThen (identifier.matchThen (arrowTail.matchThen k)) := rfl

/-- The text declares the name: a colon or an equals sign stands behind the name, and up to there no bracket. -/
def Declares (s name : Chars) : Prop :=
  ∃ before gap sign, s = before ++ name ++ gap ++ [sign] ∧ '(' ∉ before ++ name ++ gap ∧ (sign = ':' ∨ sign = '=')

theorem Declares.targets_append {declaration name : Chars} (h : Declares declaration name) (rest : Chars) :
    Calls.targets (declaration ++ rest) = Calls.targets rest := by
  obtain ⟨before, gap, sign, rfl, hbracket, hsign⟩ := h
  rw [List.append_assoc _ [sign], List.singleton_append]
  exact Calls.targets_append hbracket hsign

/-- Behind the declared name there are blanks, and then a type or the equals sign. -/
theorem exists_of_arrowTail_describes {taken : Chars} (h : arrowTail.Describes taken) :
    ∃ gap sign rest, taken = gap ++ sign :: rest ∧ '(' ∉ gap ∧ (sign = ':' ∨ sign = '=') := by
  obtain ⟨_, alternative, rfl, ⟨_, async, rfl, ⟨_, blanks, rfl, ⟨_, equals, rfl, ⟨gap, type, rfl, hgap, htype⟩,
    hequals⟩, -⟩, -⟩, -⟩ := h
  have hbracket : '(' ∉ gap := not_mem_of_describes (by decide) hgap
  rcases htype with ⟨colon, rest, rfl, hcolon, -⟩ | hnone
  · have hsign : colon = [':'] := hcolon
    exact ⟨gap, ':', rest ++ equals ++ blanks ++ async ++ alternative, by simp [hsign], hbracket, Or.inl rfl⟩
  · have hsign : equals = ['='] := hequals
    have htype : type = [] := hnone
    exact ⟨gap, '=', blanks ++ async ++ alternative, by simp [hsign, htype], hbracket, Or.inr rfl⟩

theorem exists_declares {line : Chars} {captures : Captures} (h : arrowHeader.match? line = some captures) :
    ∃ declaration rest, line = declaration ++ rest ∧ Declares declaration (captures.get 1) ∧ '.' ∉ captures.get 1 := by
  obtain ⟨found, hfound, rfl⟩ := Option.map_eq_some_iff.mp h
  rw [matchAt, arrowHeader_matchThen] at hfound
  obtain ⟨before, name, taken, rest, hline, hbefore, hname, htaken, hget⟩ := captured_of_matchThen (by decide) hfound
  obtain ⟨gap, sign, later, rfl, hgap, hsign⟩ := exists_of_arrowTail_describes htaken
  have hbeforeBracket : '(' ∉ before := not_mem_of_describes (by decide) hbefore
  have hnameBracket : '(' ∉ name := not_mem_of_describes (by decide) hname
  have hnameDot : '.' ∉ name := not_mem_of_describes (by decide) hname
  rw [Captures.get, hget, Option.getD_some]
  refine ⟨before ++ name ++ gap ++ [sign], later ++ rest, ?_, ⟨before, gap, sign, rfl, ?_, hsign⟩, hnameDot⟩
  · simpa using hline
  · simp [hbeforeBracket, hnameBracket, hgap]

/-- The text of lines starts with the first of them. -/
theorem exists_textOf_eq_append {ls : List Chars} {start stop : Nat} {line : Chars} (hline : ls[start]? = some line)
    (hstop : start ≤ stop) : ∃ more, Entity.textOf ls start stop = line ++ more := by
  obtain ⟨hlt, rfl⟩ := List.getElem?_eq_some_iff.mp hline
  have hcount : stop + 1 - start = stop - start + 1 := by omega
  rw [Entity.textOf, List.drop_eq_getElem_cons hlt, hcount, List.take_succ_cons, unlines]
  cases (ls.drop (start + 1)).take (stop - start) with
  | nil => exact ⟨[], by rw [List.intercalate_singleton, List.append_nil]⟩
  | cons next more => exact ⟨_, by rw [List.intercalate_cons_cons, List.append_assoc]⟩

/-- A function under a name that a constant or variable is declared with: all its call targets stand behind the
declaration, and it is recorded as calling itself exactly if its name is one of them at least twice, if it is no
keyword and if there are not too many others before it. -/
theorem selfCall_iff {ls : List Chars} {i : Nat} {line : Chars} {span : Span} (hline : ls[i]? = some line)
    (hheader : functionHeader.match? line = none) (hspan : functionSpan? ls i line = some span) (symbols : Symbols) :
    ∃ declaration rest, Entity.textOf ls span.start span.stop = declaration ++ rest ∧ Declares declaration span.name ∧
      Calls.targets (Entity.textOf ls span.start span.stop) = Calls.targets rest ∧
      ((span.toEntity ls symbols).name ∈ (span.toEntity ls symbols).calls ↔
        2 ≤ (Calls.targets rest).count span.name ∧ span.name ∉ Calls.stopList ∧
          (Calls.earlier span.name rest).length < Calls.limit) := by
  rw [functionSpan?, hheader] at hspan
  obtain ⟨captures, hcaptures, rfl⟩ := Option.map_eq_some_iff.mp hspan
  obtain ⟨declaration, later, rfl, hdeclares, hdot⟩ := exists_declares hcaptures
  obtain ⟨more, hraw⟩ := exists_textOf_eq_append hline (Braces.le_blockEnd ls i)
  rw [List.append_assoc] at hraw
  have htargets := hdeclares.targets_append (later ++ more)
  refine ⟨declaration, later ++ more, hraw, hdeclares, ?_, ?_⟩
  · rw [hraw, htargets]
  · rw [Span.name_mem_calls_iff hdot, Calls.earlier, hraw, htargets, Calls.earlier]

/-- A function that calls itself once. -/
def factorial : String := "const fact = (n) => n <= 1 ? 1 : n * fact(n - 1);\n"

theorem selfCall_iff_factorial : ∃ line span, (lines factorial.toList)[0]? = some line ∧
    functionHeader.match? line = none ∧ functionSpan? (lines factorial.toList) 0 line = some span ∧
    ∀ symbols : Symbols, ∃ declaration rest,
      Entity.textOf (lines factorial.toList) span.start span.stop = declaration ++ rest ∧
      Declares declaration span.name ∧
      ((span.toEntity (lines factorial.toList) symbols).name ∈
          (span.toEntity (lines factorial.toList) symbols).calls ↔
        2 ≤ (Calls.targets rest).count span.name ∧ span.name ∉ Calls.stopList ∧
          (Calls.earlier span.name rest).length < Calls.limit) := by
  have hlines : lines factorial.toList = ["const fact = (n) => n <= 1 ? 1 : n * fact(n - 1);".toList] := by
    rw [factorial, String.toList_ofList]
    decide +kernel
  generalize hline : "const fact = (n) => n <= 1 ? 1 : n * fact(n - 1);".toList = line at hlines
  have hheader : functionHeader.match? line = none := by
    rw [← hline]
    decide +kernel
  have hsome : (functionSpan? [line] 0 line).isSome := by
    rw [← hline]
    decide +kernel
  obtain ⟨span, hspan⟩ := Option.isSome_iff_exists.mp hsome
  rw [hlines]
  refine ⟨line, span, rfl, hheader, hspan, fun symbols => ?_⟩
  obtain ⟨declaration, rest, hraw, hdeclares, -, hcalls⟩ := selfCall_iff rfl hheader hspan symbols
  exact ⟨declaration, rest, hraw, hdeclares, hcalls⟩

/-- The one call is not recorded. -/
theorem selfCall_lost_factorial :
    ∃ entities, Catalog.standard.entities factorial "src/math.js" = .ok entities ∧
      ∃ entity ∈ entities, entity.kind = .function ∧ entity.name = "fact" ∧
        entity.name.toList ∈ Calls.targets entity.content.toList ∧
        (Calls.targets entity.content.toList).length < Calls.limit ∧ entity.name ∉ entity.calls := by
  have hpath : Path.extension "src/math.js".toList ≠ "ipynb".toList := by decide
  refine ⟨_, Catalog.entities_of_source factorial hpath, ?_⟩
  rw [factorial, String.toList_ofList]
  decide +kernel

end Script
end SourceIndex
