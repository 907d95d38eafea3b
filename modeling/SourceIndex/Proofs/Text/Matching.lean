import SourceIndex.Text.Pattern

/-! What a pattern takes. Whatever the matcher tries first and whatever follows the pattern, a match takes off
the front of the text one of the texts that the pattern describes, and goes on right behind it. On the way it
makes the captures that no way through the pattern leaves out. -/

namespace SourceIndex.Text.Pattern

/-- The texts that a pattern describes, without regard to what stands around them. -/
def Describes : Pattern → Chars → Prop
  | .empty, s | .lineStart, s | .lineEnd, s | .wordEdge, s => s = []
  | .text cs, s => s = cs
  | .one p, s => ∃ c, s = [c] ∧ p c = true
  | .many p, s | .fewest p, s => ∀ c ∈ s, p c = true
  | .seq a b, s => ∃ u v, s = u ++ v ∧ a.Describes u ∧ b.Describes v
  | .either a b, s => a.Describes s ∨ b.Describes s
  | .repeated a, s => ∃ parts : List Chars, s = parts.flatten ∧ ∀ part ∈ parts, a.Describes part
  | .capture _ a, s => a.Describes s

/-- The text `taken` stands at a place, and from behind it `k` leads to the match. -/
def Takes (k : Continuation) (place : Place) (found : Found) (taken : Chars) : Prop :=
  ∃ (before : Option Char) (rest : Chars) (captures : Captures), place.rest = taken ++ rest ∧
    k ⟨before, place.offset + taken.length, rest⟩ captures = some found

theorem Takes.nil {k : Continuation} {place : Place} {captures : Captures} {found : Found}
    (h : k place captures = some found) : Takes k place found [] :=
  ⟨place.before, place.rest, captures, rfl, h⟩

theorem Takes.cons {k : Continuation} {place : Place} {c : Char} {rest taken : Chars} {found : Found}
    (hrest : place.rest = c :: rest) (h : Takes k (place.next c rest) found taken) :
    Takes k place found (c :: taken) := by
  obtain ⟨before, rest', captures, heq, hk⟩ := h
  refine ⟨before, rest', captures, ?_, ?_⟩
  · rw [hrest, List.cons_append]
    exact congrArg (c :: ·) heq
  · rw [List.length_cons, ← hk]
    simp only [Place.next]
    rw [Nat.add_assoc, Nat.add_comm 1]

theorem takes_textThen {k : Continuation} {cs : Chars} {place : Place} {captures : Captures}
    {found : Found} (h : textThen k cs place captures = some found) : Takes k place found cs := by
  induction cs generalizing place with
  | nil => exact Takes.nil h
  | cons c cs ih =>
      rw [textThen] at h
      split at h
      · split at h
        · subst c
          exact Takes.cons ‹_› (ih h)
        · cases h
      · cases h

theorem takes_manyThen {p : Char → Bool} {k : Continuation} {captures : Captures} {rest : Chars}
    {before : Option Char} {offset : Nat} {found : Found}
    (h : manyThen p k captures rest before offset = some found) :
    ∃ taken, (∀ c ∈ taken, p c = true) ∧ Takes k ⟨before, offset, rest⟩ found taken := by
  induction rest generalizing before offset with
  | nil => exact ⟨[], List.forall_mem_nil _, Takes.nil h⟩
  | cons c rest ih =>
      rw [manyThen] at h
      split at h
      · split at h
        · cases h
          obtain ⟨taken, hall, htakes⟩ := ih ‹_›
          exact ⟨c :: taken, List.forall_mem_cons.mpr ⟨‹_›, hall⟩, Takes.cons rfl htakes⟩
        · exact ⟨[], List.forall_mem_nil _, Takes.nil h⟩
      · exact ⟨[], List.forall_mem_nil _, Takes.nil h⟩

theorem takes_fewestThen {p : Char → Bool} {k : Continuation} {captures : Captures} {rest : Chars}
    {before : Option Char} {offset : Nat} {found : Found}
    (h : fewestThen p k captures rest before offset = some found) :
    ∃ taken, (∀ c ∈ taken, p c = true) ∧ Takes k ⟨before, offset, rest⟩ found taken := by
  induction rest generalizing before offset with
  | nil => exact ⟨[], List.forall_mem_nil _, Takes.nil h⟩
  | cons c rest ih =>
      rw [fewestThen] at h
      split at h
      · cases h
        exact ⟨[], List.forall_mem_nil _, Takes.nil ‹_›⟩
      · split at h
        · obtain ⟨taken, hall, htakes⟩ := ih h
          exact ⟨c :: taken, List.forall_mem_cons.mpr ⟨‹_›, hall⟩, Takes.cons rfl htakes⟩
        · cases h

theorem takes_oneThen {p : Char → Bool} {k : Continuation} {place : Place} {captures : Captures}
    {found : Found} (h : oneThen p k place captures = some found) :
    ∃ c, p c = true ∧ Takes k place found [c] := by
  rw [oneThen] at h
  split at h
  · split at h
    · exact ⟨_, ‹_›, Takes.cons ‹_› (Takes.nil h)⟩
    · cases h
  · cases h

/-- What is taken behind a text that was taken. -/
theorem Takes.append {k : Continuation} {place : Place} {before : Option Char} {rest s t : Chars}
    {found : Found} (hrest : place.rest = s ++ rest)
    (h : Takes k ⟨before, place.offset + s.length, rest⟩ found t) : Takes k place found (s ++ t) := by
  obtain ⟨before', rest', captures, hrest', hk⟩ := h
  refine ⟨before', rest', captures, ?_, ?_⟩
  · rw [hrest, List.append_assoc]
    exact congrArg (s ++ ·) hrest'
  · rw [List.length_append, ← Nat.add_assoc]
    exact hk

/-- Steps that are repeated take a text each. -/
theorem takes_repeatedThen {step : Continuation → Continuation} {describes : Chars → Prop}
    {found : Found} (hstep : ∀ {k : Continuation} {place : Place} {captures : Captures},
      step k place captures = some found → ∃ taken, describes taken ∧ Takes k place found taken)
    {k : Continuation} {fuel : Nat} {place : Place} {captures : Captures}
    (h : repeatedThen step k fuel place captures = some found) :
    ∃ parts : List Chars, (∀ part ∈ parts, describes part) ∧ Takes k place found parts.flatten := by
  induction fuel generalizing place captures with
  | zero => exact ⟨[], List.forall_mem_nil _, Takes.nil h⟩
  | succ fuel ih =>
      rw [repeatedThen] at h
      split at h
      · cases h
        obtain ⟨part, hpart, before, rest, captures', hrest, hk⟩ := hstep ‹_›
        dsimp only at hk
        split at hk
        · obtain ⟨parts, hparts, htakes⟩ := ih hk
          exact ⟨part :: parts, List.forall_mem_cons.mpr ⟨hpart, hparts⟩, Takes.append hrest htakes⟩
        · cases hk
      · exact ⟨[], List.forall_mem_nil _, Takes.nil h⟩

/-- A match takes one of the texts that the pattern describes. -/
theorem takes_matchThen {pattern : Pattern} {k : Continuation} {place : Place} {captures : Captures}
    {found : Found} (h : pattern.matchThen k place captures = some found) :
    ∃ taken, pattern.Describes taken ∧ Takes k place found taken := by
  induction pattern generalizing k place captures with
  | empty => exact ⟨[], rfl, Takes.nil h⟩
  | text cs => exact ⟨cs, rfl, takes_textThen h⟩
  | one p =>
      obtain ⟨c, hc, htakes⟩ := takes_oneThen h
      exact ⟨[c], ⟨c, rfl, hc⟩, htakes⟩
  | many p => exact takes_manyThen h
  | fewest p => exact takes_fewestThen h
  | lineStart | lineEnd | wordEdge =>
      simp only [matchThen] at h
      split at h
      · exact ⟨[], rfl, Takes.nil h⟩
      · cases h
  | seq a b iha ihb =>
      obtain ⟨s, hs, before, rest, captures', hrest, hk⟩ := iha h
      obtain ⟨t, ht, htakes⟩ := ihb hk
      exact ⟨s ++ t, ⟨s, t, rfl, hs, ht⟩, Takes.append hrest htakes⟩
  | either a b iha ihb =>
      simp only [matchThen] at h
      split at h
      · cases h
        obtain ⟨taken, hdescribes, htakes⟩ := iha ‹_›
        exact ⟨taken, Or.inl hdescribes, htakes⟩
      · obtain ⟨taken, hdescribes, htakes⟩ := ihb h
        exact ⟨taken, Or.inr hdescribes, htakes⟩
  | repeated a iha =>
      obtain ⟨parts, hparts, htakes⟩ := takes_repeatedThen iha h
      exact ⟨parts.flatten, ⟨parts, rfl, hparts⟩, htakes⟩
  | capture slot a iha =>
      obtain ⟨taken, hdescribes, before, rest, captures', hrest, hk⟩ := iha h
      exact ⟨taken, hdescribes, before, rest, _, hrest, hk⟩

/-- A text that a pattern matches begins with one of the texts that the pattern describes. -/
theorem describes_of_match? {pattern : Pattern} {s : Chars} {captures : Captures}
    (h : pattern.match? s = some captures) :
    ∃ taken rest, s = taken ++ rest ∧ pattern.Describes taken := by
  obtain ⟨found, hfound, _⟩ := Option.map_eq_some_iff.mp h
  obtain ⟨taken, hdescribes, _, rest, _, hrest, _⟩ := takes_matchThen hfound
  exact ⟨taken, rest, hrest, hdescribes⟩

/-- The pattern describes no text with the character. -/
def Avoids (c : Char) : Pattern → Bool
  | .empty | .lineStart | .lineEnd | .wordEdge => true
  | .text cs => !cs.contains c
  | .one p | .many p | .fewest p => !p c
  | .seq a b | .either a b => a.Avoids c && b.Avoids c
  | .repeated a | .capture _ a => a.Avoids c

theorem not_mem_of_describes {pattern : Pattern} {c : Char} (havoids : pattern.Avoids c = true) {s : Chars}
    (h : pattern.Describes s) : c ∉ s := by
  have hclass {p : Char → Bool} (hp : (!p c) = true) {s : Chars} (hall : ∀ d ∈ s, p d = true) : c ∉ s := by
    intro hc
    rw [hall c hc] at hp
    cases hp
  induction pattern generalizing s with
  | empty | lineStart | lineEnd | wordEdge => exact h ▸ List.not_mem_nil
  | text cs =>
      rw [h]
      simpa [Avoids] using havoids
  | one p =>
      obtain ⟨d, rfl, hd⟩ := h
      exact hclass havoids (List.forall_mem_singleton.mpr hd)
  | many p | fewest p => exact hclass havoids h
  | seq a b iha ihb =>
      obtain ⟨ha, hb⟩ := Bool.and_eq_true_iff.mp havoids
      obtain ⟨u, v, rfl, hu, hv⟩ := h
      exact fun hc => (List.mem_append.mp hc).elim (iha ha hu) (ihb hb hv)
  | either a b iha ihb =>
      obtain ⟨ha, hb⟩ := Bool.and_eq_true_iff.mp havoids
      exact h.elim (iha ha) (ihb hb)
  | repeated a iha =>
      obtain ⟨parts, rfl, hparts⟩ := h
      intro hc
      obtain ⟨part, hpart, hmem⟩ := List.mem_flatten.mp hc
      exact iha havoids (hparts part hpart) hmem
  | capture slot a iha => exact iha havoids h

/-! ### Captures -/

/-- Every match of the pattern captures a part under the number. -/
def Binds (slot : Nat) : Pattern → Bool
  | .seq a b => a.Binds slot || b.Binds slot
  | .either a b => a.Binds slot && b.Binds slot
  | .capture other a => other == slot || a.Binds slot
  | _ => false

/-- A part is captured under the number. -/
def Captures.Has (captures : Captures) (slot : Nat) : Prop := ∃ part, captures.get? slot = some part

theorem Captures.Has.cons {captures : Captures} {slot other : Nat} (part : Chars)
    (h : other = slot ∨ captures.Has slot) : Captures.Has ((other, part) :: captures) slot := by
  by_cases heq : slot = other
  · exact ⟨part, by rw [Captures.get?, heq, List.lookup_cons_self]⟩
  · obtain ⟨kept, hkept⟩ := h.resolve_left (Ne.symm heq)
    refine ⟨kept, ?_⟩
    rw [Captures.get?, List.lookup_cons, beq_false_of_ne heq]
    exact hkept

/-- From some place `k` leads to the match with the given captures. -/
def Reaches (k : Continuation) (captures : Captures) (found : Found) : Prop :=
  ∃ place, k place captures = some found

theorem reaches_textThen {k : Continuation} {cs : Chars} {place : Place} {captures : Captures}
    {found : Found} (h : textThen k cs place captures = some found) : Reaches k captures found := by
  induction cs generalizing place with
  | nil => exact ⟨place, h⟩
  | cons c cs ih =>
      rw [textThen] at h
      split at h
      · split at h
        · exact ih h
        · cases h
      · cases h

theorem reaches_oneThen {p : Char → Bool} {k : Continuation} {place : Place} {captures : Captures}
    {found : Found} (h : oneThen p k place captures = some found) : Reaches k captures found := by
  rw [oneThen] at h
  split at h
  · split at h
    · exact ⟨_, h⟩
    · cases h
  · cases h

theorem reaches_manyThen {p : Char → Bool} {k : Continuation} {captures : Captures} {rest : Chars}
    {before : Option Char} {offset : Nat} {found : Found}
    (h : manyThen p k captures rest before offset = some found) : Reaches k captures found := by
  induction rest generalizing before offset with
  | nil => exact ⟨_, h⟩
  | cons c rest ih =>
      rw [manyThen] at h
      split at h
      · split at h
        · cases h
          exact ih ‹_›
        · exact ⟨_, h⟩
      · exact ⟨_, h⟩

theorem reaches_fewestThen {p : Char → Bool} {k : Continuation} {captures : Captures} {rest : Chars}
    {before : Option Char} {offset : Nat} {found : Found}
    (h : fewestThen p k captures rest before offset = some found) : Reaches k captures found := by
  induction rest generalizing before offset with
  | nil => exact ⟨_, h⟩
  | cons c rest ih =>
      rw [fewestThen] at h
      split at h
      · cases h
        exact ⟨_, ‹_›⟩
      · split at h
        · exact ih h
        · cases h

/-- Steps that are repeated relate the captures before and after as one step does. -/
theorem related_repeatedThen (related : Captures → Captures → Prop) {step : Continuation → Continuation}
    (hrefl : ∀ captures, related captures captures)
    (htrans : ∀ {a b c : Captures}, related a b → related b c → related a c) {found : Found}
    (hstep : ∀ {k : Continuation} {place : Place} {captures : Captures},
      step k place captures = some found → ∃ after : Captures, related captures after ∧ Reaches k after found)
    {k : Continuation} {fuel : Nat} {place : Place} {captures : Captures}
    (h : repeatedThen step k fuel place captures = some found) :
    ∃ after : Captures, related captures after ∧ Reaches k after found := by
  induction fuel generalizing place captures with
  | zero => exact ⟨captures, hrefl captures, place, h⟩
  | succ fuel ih =>
      rw [repeatedThen] at h
      split at h
      · cases h
        obtain ⟨between, hbetween, next, hnext⟩ := hstep ‹_›
        dsimp only at hnext
        split at hnext
        · obtain ⟨after, hafter, hreaches⟩ := ih hnext
          exact ⟨after, htrans hbetween hafter, hreaches⟩
        · cases hnext
      · exact ⟨captures, hrefl captures, place, h⟩

/-- A match keeps the captures so far, and has those that the pattern always makes. -/
theorem has_matchThen {pattern : Pattern} (slot : Nat) {k : Continuation} {place : Place}
    {captures : Captures} {found : Found} (h : pattern.matchThen k place captures = some found) :
    ∃ after : Captures, (pattern.Binds slot = true ∨ captures.Has slot → after.Has slot) ∧
      Reaches k after found := by
  induction pattern generalizing k place captures with
  | empty => exact ⟨captures, fun hhas => hhas.resolve_left Bool.false_ne_true, place, h⟩
  | text cs => exact ⟨captures, fun hhas => hhas.resolve_left Bool.false_ne_true, reaches_textThen h⟩
  | one p => exact ⟨captures, fun hhas => hhas.resolve_left Bool.false_ne_true, reaches_oneThen h⟩
  | many p => exact ⟨captures, fun hhas => hhas.resolve_left Bool.false_ne_true, reaches_manyThen h⟩
  | fewest p => exact ⟨captures, fun hhas => hhas.resolve_left Bool.false_ne_true, reaches_fewestThen h⟩
  | lineStart | lineEnd | wordEdge =>
      simp only [matchThen] at h
      split at h
      · exact ⟨captures, fun hhas => hhas.resolve_left Bool.false_ne_true, place, h⟩
      · cases h
  | seq a b iha ihb =>
      obtain ⟨between, hbetween, next, hnext⟩ := iha h
      obtain ⟨after, hafter, hreaches⟩ := ihb hnext
      refine ⟨after, fun hhas => ?_, hreaches⟩
      rw [Binds, Bool.or_eq_true] at hhas
      rcases hhas with (ha | hb) | hcaptures
      · exact hafter (Or.inr (hbetween (Or.inl ha)))
      · exact hafter (Or.inl hb)
      · exact hafter (Or.inr (hbetween (Or.inr hcaptures)))
  | either a b iha ihb =>
      simp only [matchThen] at h
      split at h
      · cases h
        obtain ⟨after, hafter, hreaches⟩ := iha ‹_›
        refine ⟨after, fun hhas => hafter (hhas.imp_left fun hboth => ?_), hreaches⟩
        exact (Bool.and_eq_true_iff.mp hboth).1
      · obtain ⟨after, hafter, hreaches⟩ := ihb h
        refine ⟨after, fun hhas => hafter (hhas.imp_left fun hboth => ?_), hreaches⟩
        exact (Bool.and_eq_true_iff.mp hboth).2
  | repeated a iha =>
      obtain ⟨after, hafter, hreaches⟩ :=
        related_repeatedThen (fun a b => a.Has slot → b.Has slot) (fun _ => id) (fun hab hbc => hbc ∘ hab)
          (fun hstep => (iha hstep).imp fun _ hkept => ⟨fun hhas => hkept.1 (Or.inr hhas), hkept.2⟩) h
      exact ⟨after, fun hhas => hafter (hhas.resolve_left Bool.false_ne_true), hreaches⟩
  | capture other a iha =>
      obtain ⟨after, hafter, next, hnext⟩ := iha h
      refine ⟨_, fun hhas => Captures.Has.cons _ ?_, next, hnext⟩
      rw [Binds, Bool.or_eq_true, beq_iff_eq, or_assoc] at hhas
      exact hhas.imp_right hafter

theorem has_of_matchAt {pattern : Pattern} {slot : Nat} (hbinds : pattern.Binds slot = true) {place : Place}
    {found : Found} (h : pattern.matchAt place = some found) : found.captures.Has slot := by
  obtain ⟨after, hafter, next, hnext⟩ := has_matchThen slot h
  cases hnext
  exact hafter (Or.inl hbinds)

theorem has_of_match? {pattern : Pattern} {slot : Nat} (hbinds : pattern.Binds slot = true) {s : Chars}
    {captures : Captures} (h : pattern.match? s = some captures) : captures.Has slot := by
  obtain ⟨found, hfound, rfl⟩ := Option.map_eq_some_iff.mp h
  exact has_of_matchAt hbinds hfound

theorem has_of_mem_findAll {pattern : Pattern} {slot : Nat} (hbinds : pattern.Binds slot = true) {s : Chars}
    {captures : Captures} (h : captures ∈ pattern.findAll s) : captures.Has slot := by
  have hfrom : ∀ (before : Option Char) (offset skip : Nat) (s : Chars),
      captures ∈ pattern.findFrom before offset skip s → captures.Has slot := by
    intro before offset skip s h
    fun_induction findFrom pattern before offset skip s with
    | case1 => cases h
    | case2 before offset skip c rest ih => exact ih h
    | case3 before offset c rest found hfound ih =>
        rcases List.mem_cons.mp h with rfl | hlater
        · exact has_of_matchAt hbinds hfound
        · exact ih hlater
    | case4 before offset c rest hnone ih => exact ih h
  exact hfrom none 0 0 s h

/-- The numbers under which a match may capture parts. -/
def slots : Pattern → List Nat
  | .seq a b | .either a b => a.slots ++ b.slots
  | .repeated a => a.slots
  | .capture slot a => slot :: a.slots
  | _ => []

/-- A match leaves what is captured under a number that the pattern does not use. -/
theorem get?_matchThen {pattern : Pattern} {slot : Nat} (hslot : slot ∉ pattern.slots) {k : Continuation}
    {place : Place} {captures : Captures} {found : Found} (h : pattern.matchThen k place captures = some found) :
    ∃ after : Captures, after.get? slot = captures.get? slot ∧ Reaches k after found := by
  induction pattern generalizing k place captures with
  | empty => exact ⟨captures, rfl, place, h⟩
  | text cs => exact ⟨captures, rfl, reaches_textThen h⟩
  | one p => exact ⟨captures, rfl, reaches_oneThen h⟩
  | many p => exact ⟨captures, rfl, reaches_manyThen h⟩
  | fewest p => exact ⟨captures, rfl, reaches_fewestThen h⟩
  | lineStart | lineEnd | wordEdge =>
      simp only [matchThen] at h
      split at h
      · exact ⟨captures, rfl, place, h⟩
      · cases h
  | seq a b iha ihb =>
      obtain ⟨ha, hb⟩ := not_or.mp (mt List.mem_append.mpr hslot)
      obtain ⟨between, hbetween, next, hnext⟩ := iha ha h
      obtain ⟨after, hafter, hreaches⟩ := ihb hb hnext
      exact ⟨after, hafter.trans hbetween, hreaches⟩
  | either a b iha ihb =>
      obtain ⟨ha, hb⟩ := not_or.mp (mt List.mem_append.mpr hslot)
      simp only [matchThen] at h
      split at h
      · cases h
        exact iha ha ‹_›
      · exact ihb hb h
  | repeated a iha =>
      exact related_repeatedThen (fun a b => b.get? slot = a.get? slot) (fun _ => rfl) (fun hab hbc => hbc.trans hab)
        (iha hslot) h
  | capture other a iha =>
      obtain ⟨hother, ha⟩ := not_or.mp (mt List.mem_cons.mpr hslot)
      obtain ⟨after, hafter, next, hnext⟩ := iha ha h
      refine ⟨_, ?_, next, hnext⟩
      rw [Captures.get?, List.lookup_cons, beq_false_of_ne hother]
      exact hafter

/-- What a match captures stands behind what the pattern takes first, and before what it takes last. -/
theorem captured_of_matchThen {front a tail : Pattern} {slot : Nat} (hslot : slot ∉ tail.slots) {place : Place}
    {captures : Captures} {found : Found}
    (h : front.matchThen ((Pattern.capture slot a).matchThen (tail.matchThen
      fun place captures => some ⟨place.offset, captures⟩)) place captures = some found) :
    ∃ before name taken rest, place.rest = before ++ (name ++ (taken ++ rest)) ∧ front.Describes before ∧
      a.Describes name ∧ tail.Describes taken ∧ found.captures.get? slot = some name := by
  obtain ⟨before, hbefore, _, rest, _, hplace, hname⟩ := takes_matchThen h
  rw [matchThen] at hname
  obtain ⟨name, hdescribes, _, rest', captures', hrest, htail⟩ := takes_matchThen hname
  obtain ⟨taken, htaken, _, rest'', _, hrest', -⟩ := takes_matchThen htail
  obtain ⟨after, hafter, _, hfound⟩ := get?_matchThen hslot htail
  dsimp only at hrest hrest' hafter
  refine ⟨before, name, taken, rest'', ?_, hbefore, hdescribes, htaken, ?_⟩
  · rw [hplace, hrest, hrest']
  · cases hfound
    rw [hafter, Captures.get?, List.lookup_cons_self, Nat.add_sub_cancel_left, hrest, List.take_left]

end SourceIndex.Text.Pattern
