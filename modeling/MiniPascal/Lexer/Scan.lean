import MiniPascal.Rule.Lexeme
import MiniPascal.Rule.Reading
import MiniPascal.Text.Utf8

/-!
# Scanning a source

Scanning knows nothing of symbol tables. `Scan.next` goes from a point of a source over the lexemes
that mean nothing to the first one that contributes to the tokens, and `Scan.all` repeats it up to
the end of the source or to the first character at which it fails. Main statement: a scan that
finds something leaves a shorter rest (`Scan.rest_length_lt`).
-/

namespace MiniPascal

/-! ## Points of a source -/

/-- A point that a scan has reached: what is left to read, and the position where that starts. -/
structure Point where
  rest : List Char
  position : Position
  deriving DecidableEq

namespace Point

/-- The start of a source. -/
def start (source : List Char) : Point :=
  ⟨source, Position.start⟩

/-- The character at a point. The null character stands for none. -/
def character (point : Point) : Char :=
  point.rest.head?.getD '\x00'

/-- The point right after a lexeme. Only the lexemes of the newline rule lead to other lines, by as
many as they have characters. -/
def past (point : Point) (lexeme : Lexeme) : Point :=
  let lines := if lexeme.rule = .newline then lexeme.text.length else 0
  ⟨lexeme.rest,
    ⟨point.position.line + lines, point.position.offset + Text.byteLength lexeme.text⟩⟩

end Point

/-! ## Outcomes -/

/-- A lexeme that contributes to the tokens: its rule, its position, what it contributes, and the
point right after it. -/
structure Finding where
  rule : Rule
  position : Position
  content : Content
  next : Point
  deriving DecidableEq

/-- Why a scan failed: no rule matched, or a rule matched and its lexeme was refused. -/
inductive Cause where
  | noRule
  | refusedLexeme
  deriving DecidableEq

/-- How a scan ends: at the end of the source, or at a character that starts no lexeme. -/
inductive Ending where
  | finish (point : Point)
  | failure (cause : Cause) (character : Char) (point : Point)
  deriving DecidableEq

/-- The point where a scan has ended. -/
def Ending.point : Ending → Point
  | .finish point => point
  | .failure _ _ point => point

/-- The outcome of one step of a scan. -/
inductive Scan where
  | found (finding : Finding)
  | ended (ending : Ending)
  deriving DecidableEq

/-- What one round of a step comes to: it decides the step, or the step goes on at another point. -/
inductive Round where
  | decided (scan : Scan)
  | goesOn (point : Point)

namespace Scan

/-! ## One step -/

/-- One round of a step: the first lexeme is taken and read, and a lexeme that means nothing is
passed over. Only numbers can be refused, which is reported at their sharp sign. -/
def round (rules : List Rule) (point : Point) : Round :=
  match Lexeme.first? rules point.rest with
  | none => .decided (.ended (.failure .noRule point.character point))
  | some lexeme =>
    match lexeme.rule.read lexeme.text with
    | .skipped => .goesOn (point.past lexeme)
    | .refused => .decided (.ended (.failure .refusedLexeme '#' point))
    | .content content =>
      .decided (.found ⟨lexeme.rule, point.position, content, point.past lexeme⟩)

/-- A round goes on only right behind a lexeme that means nothing. -/
theorem exists_of_goesOn {rules : List Rule} {point later : Point}
    (h : round rules point = .goesOn later) :
    ∃ lexeme, Lexeme.first? rules point.rest = some lexeme ∧
      lexeme.rule.read lexeme.text = .skipped ∧ later = point.past lexeme := by
  unfold round at h
  split at h
  · cases h
  · next lexeme hfirst =>
    split at h
    · next hread =>
      cases h
      exact ⟨lexeme, hfirst, hread, rfl⟩
    · cases h
    · cases h

/-- A round that finds something has read it in the first lexeme. -/
theorem exists_of_found {rules : List Rule} {point : Point} {finding : Finding}
    (h : round rules point = .decided (.found finding)) :
    ∃ lexeme, Lexeme.first? rules point.rest = some lexeme ∧
      lexeme.rule.read lexeme.text = .content finding.content ∧
      finding = ⟨lexeme.rule, point.position, finding.content, point.past lexeme⟩ := by
  unfold round at h
  split at h
  · cases h
  · next lexeme hfirst =>
    split at h
    · cases h
    · cases h
    · next hread =>
      cases h
      exact ⟨lexeme, hfirst, hread, rfl⟩

/-- A round that goes on leaves a shorter rest. -/
theorem rest_length_lt_of_goesOn {rules : List Rule} {point later : Point}
    (h : round rules point = .goesOn later) : later.rest.length < point.rest.length := by
  obtain ⟨lexeme, hfirst, -, rfl⟩ := exists_of_goesOn h
  exact Lexeme.rest_length_lt hfirst

/-- Scans from a point to the next finding, in rounds. -/
def next (rules : List Rule) (point : Point) : Scan :=
  match point.rest with
  | [] => .ended (.finish point)
  | _ :: _ =>
    match _h : round rules point with
    | .decided scan => scan
    | .goesOn later => next rules later
termination_by point.rest.length
decreasing_by exact rest_length_lt_of_goesOn _h

/-- A finding leaves a shorter rest. -/
theorem rest_length_lt {rules : List Rule} {point : Point} {finding : Finding}
    (h : next rules point = .found finding) :
    finding.next.rest.length < point.rest.length := by
  fun_induction next rules point with
  | case1 => cases h
  | case2 point _ _ _ scan hround =>
    rw [h] at hround
    obtain ⟨lexeme, hfirst, -, hfinding⟩ := exists_of_found hround
    rw [hfinding]
    exact Lexeme.rest_length_lt hfirst
  | case3 point _ _ _ later hround ih =>
    exact Nat.lt_trans (ih h) (rest_length_lt_of_goesOn hround)

/-! ## The whole source -/

/-- All findings from a point on, in order, and how the scan ends. -/
def all (rules : List Rule) (point : Point) : List Finding × Ending :=
  match _h : next rules point with
  | .found finding =>
    let (findings, ending) := all rules finding.next
    (finding :: findings, ending)
  | .ended ending => ([], ending)
termination_by point.rest.length
decreasing_by exact rest_length_lt _h

end Scan

end MiniPascal
