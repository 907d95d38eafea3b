import Mathlib.Tactic.SplitIfs
import SourceIndex.VectorIndex.Filter

/-! The filter of a repository and a user is read back as the two clauses that it was written from,
whatever the texts hold: an escaped text ends at the closing quote and nowhere before. Only control
characters are lost on the way, so two scopes are read alike if their texts differ in nothing else. -/

namespace SourceIndex.VectorIndex.Filter
open Text

/-- The text without its control characters. -/
def printable (value : String) : String := String.ofList (value.toList.filter fun c => !isControl c)

theorem printable_eq_self {value : String} (h : ∀ c ∈ value.toList, isControl c = false) :
    printable value = value := by
  rw [printable, List.filter_eq_self.mpr fun c hc => by rw [h c hc]; rfl, String.ofList_toList]

/-- A text is looked through for control characters by a computation. -/
theorem isControl_of_all {s : Chars} (h : s.all (fun c => !isControl c) = true) :
    ∀ c ∈ s, isControl c = false := fun c hc => by
  simpa using List.all_eq_true.mp h c hc

/-! ### Literals -/

theorem isControl_backslash : isControl '\\' = false := by decide

theorem isControl_quote : isControl '\'' = false := by decide

/-- An escaped text is read up to its closing quote as the text without its control characters. -/
theorem readLiteral_escaped (value rest done : Chars) :
    readLiteral (value.flatMap escapeChar ++ '\'' :: rest) done =
      some (done.reverse ++ value.filter (fun c => !isControl c), rest) := by
  induction value generalizing done with
  | nil => simp [readLiteral]
  | cons c value ih =>
      rw [List.flatMap_cons, List.append_assoc, escapeChar]
      split_ifs with hbackslash hquote hcontrol
      · subst hbackslash
        change readLiteral ('\\' :: '\\' :: (value.flatMap escapeChar ++ '\'' :: rest)) done = _
        rw [readLiteral, ih]
        simp [isControl_backslash]
      · subst hquote
        change readLiteral ('\\' :: '\'' :: (value.flatMap escapeChar ++ '\'' :: rest)) done = _
        rw [readLiteral, ih]
        simp [isControl_quote]
      · rw [List.nil_append, ih]
        simp [hcontrol]
      · change readLiteral (c :: (value.flatMap escapeChar ++ '\'' :: rest)) done = _
        rw [readLiteral, if_neg hbackslash, ih]
        · simp [hcontrol]
        · exact fun _ _ h _ => hbackslash h
        · exact hquote

/-- A literal that was found in a text is found there as well if the text goes on. -/
theorem readLiteral_append {s done value rest : Chars} (h : readLiteral s done = some (value, rest))
    (more : Chars) : readLiteral (s ++ more) done = some (value, rest ++ more) := by
  fun_induction readLiteral s done with
  | case1 => cases h
  | case2 done c rest' ih => exact ih h
  | case3 rest' done =>
      cases h
      rfl
  | case4 => cases h
  | case5 done c rest' hescape hquote hbackslash ih =>
      rw [List.cons_append, readLiteral, if_neg hbackslash]
      · exact ih h
      · exact fun _ _ heq _ => hbackslash heq
      · exact hquote

/-- An escaped text holds no closing quote: at whatever place it is cut, the literal is still open. -/
theorem readLiteral_cut {value cut : Chars} (hcut : cut <+: value.flatMap escapeChar) :
    readLiteral cut [] = none := by
  obtain ⟨more, hmore⟩ := hcut
  cases hread : readLiteral cut [] with
  | none => rfl
  | some found =>
      -- The same literal would end at the quote behind the text, with nothing of the text left over.
      have hlonger := readLiteral_append hread (more ++ ['\''])
      rw [← List.append_assoc, hmore, readLiteral_escaped] at hlonger
      have hlength := congrArg (fun found => (found.map fun p => p.2.length)) hlonger
      simp at hlength

/-! ### Clauses -/

/-- A field can be read up to its end: it holds no blank and nothing that no field holds. -/
structure IsField (field : String) : Prop where
  nonempty : field.toList ≠ []
  chars : field.toList.all (fun c => isFieldChar c && !isBlank c) = true

theorem isField_repoField : IsField Chunk.Metadata.repoField := ⟨by decide, by decide +kernel⟩

theorem isField_userField : IsField Chunk.Metadata.userField := ⟨by decide, by decide +kernel⟩

theorem trimStart_append {blanks : Chars} (h : ∀ c ∈ blanks, isBlank c = true) (rest : Chars) :
    trimStart (blanks ++ rest) = trimStart rest := List.dropWhile_append_of_pos h

theorem trimStart_cons {c : Char} (h : isBlank c = false) (rest : Chars) :
    trimStart (c :: rest) = c :: rest := by
  rw [trimStart, List.dropWhile_cons_of_neg]
  simpa using h

theorem stripStart?_cons (c : Char) (rest : Chars) : stripStart? [c] (c :: rest) = some rest := by
  simp [stripStart?]

theorem toList_text (clause : Clause) :
    clause.text.toList =
      clause.field.toList ++ " = '".toList ++ clause.value.toList.flatMap escapeChar ++ ['\''] := by
  simp only [Clause.text, escape, String.toList_append, String.toList_ofList]
  rfl

/-- A written clause is read back, and with it nothing of what follows. -/
theorem readClause_text {clause : Clause} (hfield : IsField clause.field) {blanks : Chars}
    (hblanks : ∀ c ∈ blanks, isBlank c = true) (rest : Chars) :
    readClause (blanks ++ (clause.text.toList ++ rest)) =
      some (⟨clause.field, printable clause.value⟩, rest) := by
  obtain ⟨hne, hall⟩ := hfield
  have hchar : ∀ c ∈ clause.field.toList, isFieldChar c = true ∧ isBlank c = false := by
    intro c hc
    simpa using List.all_eq_true.mp hall c hc
  generalize htail : clause.value.toList.flatMap escapeChar ++ '\'' :: rest = tail
  have hwhole : clause.text.toList ++ rest =
      clause.field.toList ++ (' ' :: '=' :: ' ' :: '\'' :: tail) := by
    rw [toList_text, ← htail]
    simp
  have htrim : trimStart (blanks ++ (clause.text.toList ++ rest)) =
      clause.field.toList ++ (' ' :: '=' :: ' ' :: '\'' :: tail) := by
    rw [trimStart_append hblanks, hwhole]
    cases hchars : clause.field.toList with
    | nil => exact absurd hchars hne
    | cons c chars => exact trimStart_cons (hchar c (hchars ▸ List.mem_cons_self)).2 _
  have hspace : isFieldChar ' ' = false := by decide
  have htake : (clause.field.toList ++ (' ' :: '=' :: ' ' :: '\'' :: tail)).takeWhile isFieldChar =
      clause.field.toList := by
    rw [List.takeWhile_append_of_pos fun c hc => (hchar c hc).1,
      List.takeWhile_cons_of_neg (by simp [hspace]), List.append_nil]
  have hdrop : (clause.field.toList ++ (' ' :: '=' :: ' ' :: '\'' :: tail)).dropWhile isFieldChar =
      ' ' :: '=' :: ' ' :: '\'' :: tail := by
    rw [List.dropWhile_append_of_pos fun c hc => (hchar c hc).1,
      List.dropWhile_cons_of_neg (by simp [hspace])]
  have hempty : clause.field.toList.isEmpty = false := by simpa using hne
  have hequals : trimStart (' ' :: '=' :: ' ' :: '\'' :: tail) = '=' :: ' ' :: '\'' :: tail := rfl
  have hquote : trimStart (' ' :: '\'' :: tail) = '\'' :: tail := rfl
  have hliteral : readLiteral tail [] =
      some (clause.value.toList.filter (fun c => !isControl c), rest) := by
    rw [← htail, readLiteral_escaped, List.reverse_nil, List.nil_append]
  rw [readClause, htrim]
  simp [htake, hdrop, hempty, hequals, hquote, hliteral, stripStart?_cons, printable]

theorem readClauses_succ (fuel : Nat) (s : Chars) :
    readClauses (fuel + 1) s =
      match readClause s with
      | none => none
      | some (clause, rest) =>
        match trimStart rest with
        | [] => some [clause]
        | rest =>
          if asciiLower (rest.take 3) = "and".toList then
            (readClauses fuel (rest.drop 3)).map (clause :: ·)
          else none := rfl

/-- What is read of a written clause. -/
def Clause.kept (clause : Clause) : Clause := ⟨clause.field, printable clause.value⟩

/-- Written clauses with `AND` between them are read one by one. -/
theorem readClauses_written {clauses : List Clause} (hne : clauses ≠ [])
    (hfields : ∀ clause ∈ clauses, IsField clause.field) {blanks : Chars}
    (hblanks : ∀ c ∈ blanks, isBlank c = true) {fuel : Nat} (hfuel : clauses.length ≤ fuel) :
    readClauses fuel
        (blanks ++ " AND ".toList.intercalate (clauses.map fun clause => clause.text.toList)) =
      some (clauses.map Clause.kept) := by
  induction clauses generalizing blanks fuel with
  | nil => exact absurd rfl hne
  | cons clause clauses ih =>
      obtain ⟨more, rfl⟩ := Nat.exists_eq_add_one.mpr (Nat.lt_of_lt_of_le (Nat.succ_pos _) hfuel)
      have hfield := hfields clause List.mem_cons_self
      cases clauses with
      | nil =>
          have hread := readClause_text hfield hblanks []
          rw [List.append_nil] at hread
          simp only [List.map_cons, List.map_nil, List.intercalate_singleton]
          rw [readClauses_succ, hread]
          rfl
      | cons next clauses =>
          -- After the keyword one blank is left before the next clause.
          have hlater := ih (List.cons_ne_nil _ _)
            (fun clause hmem => hfields clause (List.mem_cons_of_mem _ hmem))
            (List.forall_mem_singleton.mpr (rfl : isBlank ' ' = true)) (Nat.le_of_succ_le_succ hfuel)
          rw [List.map_cons, List.map_cons, List.intercalate_cons_cons, List.append_assoc,
            readClauses_succ, readClause_text hfield hblanks]
          rw [List.map_cons] at hlater
          generalize " AND ".toList.intercalate _ = later at hlater ⊢
          have hand : trimStart (" AND ".toList ++ later) = 'A' :: 'N' :: 'D' :: ' ' :: later := rfl
          simp only [hand]
          rw [if_pos (by rfl)]
          change (readClauses more ([' '] ++ later)).map _ = _
          rw [hlater]
          rfl

theorem toList_scope (repo user : String) :
    (scope repo user).toList =
      " AND ".toList.intercalate ((scopeClauses repo user).map fun clause => clause.text.toList) := by
  rw [scope, String.toList_intercalate, List.map_map]
  rfl

theorem isField_of_mem_scopeClauses {repo user : String} {clause : Clause}
    (h : clause ∈ scopeClauses repo user) : IsField clause.field := by
  simp only [scopeClauses, List.mem_cons, List.not_mem_nil, or_false] at h
  rcases h with rfl | rfl
  · exact isField_repoField
  · exact isField_userField

/-- The filter of a repository and a user is read as the clauses that the fields hold their texts,
without control characters. -/
theorem parse?_scope (repo user : String) :
    parse? (scope repo user) = some (scopeClauses (printable repo) (printable user)) := by
  have hlength : (scopeClauses repo user).length ≤ (scope repo user).toList.length + 1 := by
    rw [toList_scope]
    simp only [scopeClauses, List.map_cons, List.map_nil, List.intercalate_cons_cons,
      List.intercalate_singleton, List.length_append, List.length_cons, List.length_nil, toList_text]
    omega
  have hne : scopeClauses repo user ≠ [] := List.cons_ne_nil _ _
  have hread := readClauses_written hne (fun _ => isField_of_mem_scopeClauses) (List.forall_mem_nil _)
    hlength
  rw [List.nil_append, ← toList_scope] at hread
  exact hread

/-- Without control characters the filter of a repository and a user is read as their clauses. -/
theorem parse?_scope_of_printable {repo user : String}
    (h : ∀ c ∈ repo.toList ++ user.toList, isControl c = false) :
    parse? (scope repo user) = some (scopeClauses repo user) := by
  have hrepo : printable repo = repo := printable_eq_self fun c hc => h c (List.mem_append_left _ hc)
  have huser : printable user = user := printable_eq_self fun c hc => h c (List.mem_append_right _ hc)
  rw [parse?_scope, hrepo, huser]

/-- Whatever the texts of a repository and a user hold, their filter is read as two clauses, that each field
holds its text without control characters. The literal of a text goes to the quote written behind it: cut
anywhere before, it is still open, and what follows the quote is left as it is. -/
theorem scope_keepsLiterals (repo user : String) :
    parse? (scope repo user) =
        some [⟨"repoFullName", printable repo⟩, ⟨"userId", printable user⟩] ∧
      ∀ value : String,
        (∀ cut, cut <+: (escape value).toList → readLiteral cut [] = none) ∧
        ∀ rest, readLiteral ((escape value).toList ++ '\'' :: rest) [] =
          some ((printable value).toList, rest) := by
  refine ⟨parse?_scope repo user, fun value => ⟨fun cut hcut => ?_, fun rest => ?_⟩⟩
  · rw [escape, String.toList_ofList] at hcut
    exact readLiteral_cut hcut
  · rw [escape, printable, String.toList_ofList, String.toList_ofList, readLiteral_escaped]
    rfl

/-- A repository that imitates a clause, under a user that ends in a backslash. -/
example : parse? (scope "x' OR userId = 'victim" "eve\\") =
    some [⟨"repoFullName", "x' OR userId = 'victim"⟩, ⟨"userId", "eve\\"⟩] := by cbv

end SourceIndex.VectorIndex.Filter
