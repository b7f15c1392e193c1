import MiniPascal.Proofs.Scan

/-!
# The points of a scan

A scan goes through a source from point to point. Between two points lies a text, and the position
of the later one is the position behind this text (`Point.LeadsTo`). A step of a scan passes over
lexemes that mean nothing until something can be decided. Main statements: every step is decided at
one of the points that it visits (`Scan.exists_decides`), and it does not matter at which of them it
starts (`Scan.next_of_visits`).
-/

namespace MiniPascal

variable {rules : List Rule}

/-! ## Positions in order -/

namespace Position

/-- No text leads back to an earlier line. -/
theorem line_le_after (position : Position) (text : List Char) :
    position.line ≤ (position.after text).line :=
  Nat.le_add_right _ _

/-- No text leads back to an earlier byte. -/
theorem offset_le_after (position : Position) (text : List Char) :
    position.offset ≤ (position.after text).offset :=
  Nat.le_add_right _ _

/-- Some text leads to a later byte. -/
theorem offset_lt_after (position : Position) {text : List Char} (h : text ≠ []) :
    position.offset < (position.after text).offset := by
  obtain ⟨c, tail, rfl⟩ := List.exists_cons_of_ne_nil h
  have hpos : 0 < c.utf8Size := Char.utf8Size_pos c
  simp only [after, Text.byteLength_cons]
  omega

end Position

/-! ## Points in order -/

namespace Point

/-- A point lies at or behind another one: a text lies between them, and the later position is the
one behind this text. -/
def LeadsTo (point later : Point) : Prop :=
  ∃ between, between ++ later.rest = point.rest ∧ later.position = point.position.after between

namespace LeadsTo

/-- Every point lies at itself. -/
theorem refl (point : Point) : point.LeadsTo point :=
  ⟨[], rfl, rfl⟩

/-- What lies behind a later point lies behind the earlier one. -/
theorem trans {first second third : Point} (h : first.LeadsTo second) (h' : second.LeadsTo third) :
    first.LeadsTo third := by
  obtain ⟨left, hleft, hsecond⟩ := h
  obtain ⟨right, hright, hthird⟩ := h'
  refine ⟨left ++ right, ?_, ?_⟩
  · rw [List.append_assoc, hright, hleft]
  · rw [hthird, hsecond, Position.after_append]

/-- A later point is on no earlier line. -/
theorem line_le {point later : Point} (h : point.LeadsTo later) :
    point.position.line ≤ later.position.line := by
  obtain ⟨between, -, hlater⟩ := h
  rw [hlater]
  exact Position.line_le_after _ _

/-- A later point is at no earlier byte. -/
theorem offset_le {point later : Point} (h : point.LeadsTo later) :
    point.position.offset ≤ later.position.offset := by
  obtain ⟨between, -, hlater⟩ := h
  rw [hlater]
  exact Position.offset_le_after _ _

/-- A later point at the same byte is the same point. -/
theorem eq_of_offset_eq {point later : Point} (h : point.LeadsTo later)
    (hoffset : later.position.offset = point.position.offset) : later = point := by
  obtain ⟨between, hrest, hlater⟩ := h
  have hnil : between = [] := by
    by_contra hne
    have hlt := Position.offset_lt_after point.position hne
    rw [← hlater, hoffset] at hlt
    exact absurd hlt (lt_irrefl _)
  rw [hnil, List.nil_append] at hrest
  rw [hnil, Position.after_nil] at hlater
  rw [Point.mk.injEq]
  exact ⟨hrest, hlater⟩

end LeadsTo

/-- The point behind the first lexeme of a point lies behind it. -/
theorem leadsTo_past {point : Point} {lexeme : Lexeme}
    (h : Lexeme.first? rules point.rest = some lexeme) : point.LeadsTo (point.past lexeme) := by
  rw [past_eq (Lexeme.spells_of_first? h)]
  exact ⟨lexeme.text, Lexeme.append_of_first? h, rfl⟩

/-- The point behind the first lexeme of a point is at a later byte. -/
theorem offset_lt_past {point : Point} {lexeme : Lexeme}
    (h : Lexeme.first? rules point.rest = some lexeme) :
    point.position.offset < (point.past lexeme).position.offset := by
  have hspells := Lexeme.spells_of_first? h
  rw [past_eq hspells]
  exact Position.offset_lt_after point.position (Rule.ne_nil_of_spells hspells)

/-! ## The points that a step visits -/

/-- The points at which a step of a scan looks for a lexeme: the one where it starts, and those
behind lexemes that mean nothing. -/
inductive Visits (rules : List Rule) (point : Point) : Point → Prop where
  | start : Visits rules point point
  | past {stop : Point} {lexeme : Lexeme} (hstop : Visits rules point stop)
      (hfirst : Lexeme.first? rules stop.rest = some lexeme)
      (hread : lexeme.rule.read lexeme.text = .skipped) : Visits rules point (stop.past lexeme)

/-- What a step visits behind its first lexeme it visits. -/
theorem Visits.of_past {point stop : Point} {lexeme : Lexeme}
    (hfirst : Lexeme.first? rules point.rest = some lexeme)
    (hread : lexeme.rule.read lexeme.text = .skipped) (h : (point.past lexeme).Visits rules stop) :
    point.Visits rules stop := by
  induction h with
  | start => exact .past .start hfirst hread
  | past _ hfirst' hread' ih => exact .past ih hfirst' hread'

/-- All visited points lie at or behind the one where the step starts. -/
theorem Visits.leadsTo {point stop : Point} (h : point.Visits rules stop) : point.LeadsTo stop := by
  induction h with
  | start => exact .refl point
  | past _ hfirst _ ih => exact ih.trans (leadsTo_past hfirst)

/-- What is decided at a point if the lexeme there does not mean nothing. -/
inductive Decides (rules : List Rule) (stop : Point) : Scan → Prop where
  | finish (hrest : stop.rest = []) : Decides rules stop (.ended (.finish stop))
  | noRule {c : Char} {tail : List Char} (hrest : stop.rest = c :: tail)
      (hnone : Lexeme.first? rules stop.rest = none) :
      Decides rules stop (.ended (.failure .noRule c stop))
  | refused {c : Char} {tail : List Char} {lexeme : Lexeme} (hrest : stop.rest = c :: tail)
      (hfirst : Lexeme.first? rules stop.rest = some lexeme)
      (hread : lexeme.rule.read lexeme.text = .refused) :
      Decides rules stop (.ended (.failure .refusedLexeme c stop))
  | content {lexeme : Lexeme} {content : Content}
      (hfirst : Lexeme.first? rules stop.rest = some lexeme)
      (hread : lexeme.rule.read lexeme.text = .content content) :
      Decides rules stop
        (.found ⟨lexeme.rule, stop.position, content, stop.past lexeme⟩)

end Point

/-! ## Steps of a scan -/

namespace Scan

/-- What a round decides is decided at the point where it starts. -/
theorem decides_of_decided {point : Point} {scan : Scan} {c : Char} {tail : List Char}
    (hrest : point.rest = c :: tail) (h : round rules point = .decided scan) :
    point.Decides rules scan := by
  unfold round at h
  split at h
  · next hnone =>
    cases h
    have hcharacter : point.character = c := by
      rw [Point.character, hrest]
      rfl
    rw [hcharacter]
    exact .noRule hrest hnone
  · next lexeme hfirst =>
    split at h
    · cases h
    · next hread =>
      cases h
      have hsharp : c = '#' := Lexeme.eq_sharp_of_refused (hrest ▸ hfirst) hread
      rw [hsharp] at hrest
      exact .refused hrest hfirst hread
    · next hread =>
      cases h
      exact .content hfirst hread

/-- **A step of a scan is decided at one of the points that it visits.** -/
theorem exists_decides (rules : List Rule) (point : Point) :
    ∃ stop, point.Visits rules stop ∧ stop.Decides rules (next rules point) := by
  fun_induction next rules point with
  | case1 point hrest => exact ⟨point, .start, .finish hrest⟩
  | case2 point c tail hrest scan hround =>
    exact ⟨point, .start, decides_of_decided hrest hround⟩
  | case3 point c tail hrest later hround ih =>
    obtain ⟨lexeme, hfirst, hread, rfl⟩ := exists_of_goesOn hround
    obtain ⟨stop, hvisits, hdecides⟩ := ih
    exact ⟨stop, hvisits.of_past hfirst hread, hdecides⟩

/-- Where the first lexeme means nothing, a step is the one from behind it. -/
theorem next_of_skipped {point : Point} {lexeme : Lexeme}
    (hfirst : Lexeme.first? rules point.rest = some lexeme)
    (hread : lexeme.rule.read lexeme.text = .skipped) :
    next rules point = next rules (point.past lexeme) := by
  obtain ⟨text, position⟩ := point
  obtain ⟨c, tail, rfl⟩ := Lexeme.exists_eq_cons_of_first? hfirst
  rw [next_cons, hfirst]
  dsimp only
  rw [hread]

/-- A step has the same outcome from all points that it visits. -/
theorem next_of_visits {point stop : Point} (h : point.Visits rules stop) :
    next rules point = next rules stop := by
  induction h with
  | start => rfl
  | past _ hfirst hread ih => rw [ih, next_of_skipped hfirst hread]

/-- A step that is decided at a point is decided there also if it starts there. -/
theorem next_of_decides {stop : Point} {scan : Scan} (h : stop.Decides rules scan) :
    next rules stop = scan := by
  obtain ⟨text, position⟩ := stop
  cases h with
  | finish hrest =>
    obtain rfl : text = [] := hrest
    rw [next]
  | noRule hrest hnone =>
    obtain rfl := hrest
    rw [next_cons, hnone]
  | refused hrest hfirst hread =>
    obtain rfl := hrest
    rw [next_cons, hfirst]
    dsimp only
    rw [hread]
  | content hfirst hread =>
    obtain ⟨c, tail, rfl⟩ := Lexeme.exists_eq_cons_of_first? hfirst
    rw [next_cons, hfirst]
    dsimp only
    rw [hread]

/-- A finding starts at a visited point, and the step ends right behind its lexeme. -/
theorem exists_visits_of_found {point : Point} {finding : Finding}
    (h : next rules point = .found finding) :
    ∃ stop lexeme, point.Visits rules stop ∧ Lexeme.first? rules stop.rest = some lexeme ∧
      lexeme.rule.read lexeme.text = .content finding.content ∧
      finding = ⟨lexeme.rule, stop.position, finding.content, stop.past lexeme⟩ := by
  obtain ⟨stop, hvisits, hdecides⟩ := exists_decides rules point
  rw [h] at hdecides
  cases hdecides with
  | content hfirst hread => exact ⟨stop, _, hvisits, hfirst, hread, rfl⟩

/-- A scan ends at a visited point, from where it would end in the same way. -/
theorem visits_of_ended {point : Point} {ending : Ending} (h : next rules point = .ended ending) :
    point.Visits rules ending.point ∧ ending.point.Decides rules (.ended ending) := by
  obtain ⟨stop, hvisits, hdecides⟩ := exists_decides rules point
  rw [h] at hdecides
  have hpoint : ending.point = stop := by
    cases hdecides <;> rfl
  rw [hpoint]
  exact ⟨hvisits, hdecides⟩

/-- Where a scan has ended it ends again. -/
theorem next_point_of_ended {point : Point} {ending : Ending}
    (h : next rules point = .ended ending) : next rules ending.point = .ended ending :=
  next_of_decides (visits_of_ended h).2

end Scan

end MiniPascal
