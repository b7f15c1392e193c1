import MiniPascal.Proofs.Separators

/-!
# Lexing line by line

No lexeme reaches over a newline, except that newlines themselves run together, and those mean
nothing. Hence a source may be divided at any newline. Main statement: the items of two texts with a
newline between them are the items of the first one and, if these do not end in an error, those of
the second one at shifted positions (`VariableTable.items_append_newline`).
-/

namespace MiniPascal

open Text

/-! ## Shifted positions -/

/-- The position that lies a number of lines and bytes farther. -/
def Position.shift (lines bytes : Nat) (position : Position) : Position :=
  ⟨position.line + lines, position.offset + bytes⟩

/-- An item at a shifted position. -/
def Item.shift (lines bytes : Nat) : Item → Item
  | .ok token => .ok { token with position := token.position.shift lines bytes }
  | .error error => .error { error with position := error.position.shift lines bytes }

/-- The position behind a text shifts with the position where it starts. -/
theorem Position.after_shift (position : Position) (lines bytes : Nat) (text : List Char) :
    (position.shift lines bytes).after text = (position.after text).shift lines bytes := by
  simp only [after, shift, Nat.add_right_comm]

/-- The position behind a text lies its newlines and its bytes farther. -/
theorem Position.after_eq_shift (position : Position) (text : List Char) :
    position.after text = position.shift (text.count '\n') (byteLength text) := rfl

/-- From a shifted position on there are the same items, shifted. -/
theorem VariableTable.itemsFrom_shift (table : VariableTable) (lines bytes : Nat)
    (text : List Char) (position : Position) :
    table.itemsFrom Rule.all ⟨text, position.shift lines bytes⟩ =
      (table.itemsFrom Rule.all ⟨text, position⟩).map (Item.shift lines bytes) := by
  induction text using Scan.induction Rule.all generalizing position with
  | nil => rw [itemsFrom_nil, itemsFrom_nil, List.map_nil]
  | noRule c text hnone =>
    rw [itemsFrom_of_none table hnone, itemsFrom_of_none table hnone]
    rfl
  | refused c text lexeme hfirst hread =>
    rw [itemsFrom_of_refused table hfirst hread, itemsFrom_of_refused table hfirst hread]
    rfl
  | skipped c text lexeme hfirst hread ih =>
    rw [itemsFrom_of_skipped table hfirst hread, itemsFrom_of_skipped table hfirst hread,
      Position.after_shift, ih]
  | content c text lexeme content hfirst hread ih =>
    rw [itemsFrom_of_content table hfirst hread, itemsFrom_of_content table hfirst hread,
      Position.after_shift, ih, List.map_cons]
    rfl

/-! ## Lexemes in front of a newline -/

/-- What follows a newline does not change the first lexeme of a text that stands before it, if this
text does not itself start with a newline. -/
theorem Lexeme.first?_append_newline (rules : List Rule) {c : Char} (hc : c ≠ '\n')
    (text rest : List Char) :
    first? rules (c :: text ++ '\n' :: rest) =
      (first? rules (c :: text)).map fun lexeme =>
        ⟨lexeme.rule, lexeme.text, lexeme.rest ++ '\n' :: rest⟩ := by
  -- no other rule has newlines in its lexemes, and the newline rule does not match
  have hcut : ∀ rule : Rule, rule.cut? (c :: text ++ '\n' :: rest) =
      (rule.cut? (c :: text)).map (Prod.map id (· ++ '\n' :: rest)) := by
    intro rule
    by_cases hrule : rule = .newline
    · have hnone : ∀ text, Rule.cut? .newline (c :: text) = none := by
        intro text
        simp [Rule.cut?, run?, hc]
      rw [hrule, List.cons_append, hnone, hnone, Option.map_none]
    · apply (Rule.cutsLongest rule).cut?_append_cons
      intro word hword
      have hcount := Rule.count_newline_of_spells hword
      rwa [if_neg hrule, List.count_eq_zero] at hcount
  unfold first?
  rw [List.map_findSome?]
  congr 1
  funext rule
  rw [Function.comp_apply, hcut, Option.map_map, Option.map_map]
  rfl

/-- A first lexeme at a newline belongs to the newline rule. -/
theorem Lexeme.rule_eq_newline_of_first? {rules : List Rule} {text : List Char} {lexeme : Lexeme}
    (h : first? rules ('\n' :: text) = some lexeme) : lexeme.rule = .newline := by
  have hspells := spells_of_first? h
  have happend := append_of_first? h
  obtain ⟨c, tail, htext⟩ := List.exists_cons_of_ne_nil (Rule.ne_nil_of_spells hspells)
  rw [htext, List.cons_append, List.cons.injEq] at happend
  rw [htext, happend.1] at hspells
  have hinitial := Rule.initial_eq_of_spells hspells
  rw [show Initial.of '\n' = .newline by decide] at hinitial
  cases hrule : lexeme.rule <;> rw [hrule] at hinitial <;> cases hinitial

/-- A first lexeme that is no run of newlines is taken again if a newline follows its text. -/
theorem Lexeme.first?_append_newline_of_ne {rules : List Rule} {c : Char} {text : List Char}
    {lexeme : Lexeme} (h : first? rules (c :: text) = some lexeme)
    (hrule : lexeme.rule ≠ .newline) (rest : List Char) :
    first? rules (c :: text ++ '\n' :: rest) =
      some ⟨lexeme.rule, lexeme.text, lexeme.rest ++ '\n' :: rest⟩ := by
  have hc : c ≠ '\n' := by
    rintro rfl
    exact hrule (rule_eq_newline_of_first? h)
  rw [first?_append_newline rules hc, h, Option.map_some]

/-! ## Items of two texts -/

/-- Whether the last one of some items is an error. -/
def endsInError : List Item → Bool
  | [] => false
  | [.error _] => true
  | _ :: items => endsInError items

/-- A token in front of other items does not change whether they end in an error. -/
theorem endsInError_cons_ok (token : Token) (items : List Item) :
    endsInError (.ok token :: items) = endsInError items := by
  cases items <;> rfl

/-- The items of two texts with a newline between them, from any position on. -/
theorem VariableTable.itemsFrom_append_newline (table : VariableTable) (text rest : List Char)
    (position : Position) :
    table.itemsFrom Rule.all ⟨text ++ '\n' :: rest, position⟩ =
      if endsInError (table.itemsFrom Rule.all ⟨text, position⟩) then
        table.itemsFrom Rule.all ⟨text, position⟩
      else
        table.itemsFrom Rule.all ⟨text, position⟩ ++
          table.itemsFrom Rule.all ⟨rest, position.after (text ++ ['\n'])⟩ := by
  -- behind a lexeme, both texts have the same rest in front of the newline
  have hposition : ∀ (position : Position) {text : List Char} {lexeme : Lexeme},
      Lexeme.first? Rule.all text = some lexeme → position.after (text ++ ['\n']) =
        (position.after lexeme.text).after (lexeme.rest ++ ['\n']) := by
    intro position text lexeme hfirst
    rw [← Position.after_append, ← List.append_assoc, Lexeme.append_of_first? hfirst]
  induction text using Scan.induction Rule.all generalizing position with
  | nil =>
    rw [List.nil_append, table.itemsFrom_cons_of_isSeparator (by decide), itemsFrom_nil]
    rfl
  | noRule c text hnone =>
    have hc : c ≠ '\n' := by
      rintro rfl
      have hspells : Rule.Spells .newline ['\n'] := by simp [Rule.Spells]
      have hbegin : ['\n'] <+: '\n' :: text := ⟨text, rfl⟩
      exact (Lexeme.first?_eq_none_iff Rule.mem_all).1 hnone .newline ['\n'] hbegin hspells
    have hlong := Lexeme.first?_append_newline Rule.all hc text rest
    rw [hnone, Option.map_none] at hlong
    rw [List.cons_append] at hlong ⊢
    rw [itemsFrom_of_none table hlong, itemsFrom_of_none table hnone]
    rfl
  | refused c text lexeme hfirst hread =>
    have hrule : lexeme.rule ≠ .newline := by
      intro hrule
      rw [hrule] at hread
      cases hread
    have hlong := Lexeme.first?_append_newline_of_ne hfirst hrule rest
    rw [List.cons_append] at hlong ⊢
    rw [itemsFrom_of_refused table hlong hread, itemsFrom_of_refused table hfirst hread]
    rfl
  | skipped c text lexeme hfirst hread ih =>
    rw [hposition position hfirst, itemsFrom_of_skipped table hfirst hread, ← ih]
    by_cases hrule : lexeme.rule = .newline
    · -- the newlines run together, so they are taken away one by one
      have hspells := Lexeme.spells_of_first? hfirst
      have hline : ∀ c ∈ lexeme.text, isSeparator c = true := by
        rw [hrule] at hspells
        intro c hc
        rw [isSeparator, hspells.2 c hc, Bool.or_true]
      rw [← Lexeme.append_of_first? hfirst, List.append_assoc,
        table.itemsFrom_append_of_isSeparator hline]
    · have hlong := Lexeme.first?_append_newline_of_ne hfirst hrule rest
      rw [itemsFrom_of_skipped table hlong hread]
  | content c text lexeme content hfirst hread ih =>
    have hrule : lexeme.rule ≠ .newline := by
      intro hrule
      rw [hrule] at hread
      cases hread
    have hlong := Lexeme.first?_append_newline_of_ne hfirst hrule rest
    rw [hposition position hfirst, itemsFrom_of_content table hlong hread,
      itemsFrom_of_content table hfirst hread, ih, endsInError_cons_ok]
    split <;> rfl

/-- **Lexing goes line by line.** The items of two texts with a newline between them are those of
the first one, if they end in an error, and else those of both, where the second one's are shifted
by the lines and bytes in front of it. -/
theorem VariableTable.items_append_newline (table : VariableTable) (first second : String) :
    table.items (first ++ "\n" ++ second) =
      if endsInError (table.items first) then table.items first
      else table.items first ++ (table.items second).map
        (Item.shift (first.toList.count '\n' + 1) (byteLength first.toList + 1)) := by
  have htext : (first ++ "\n" ++ second).toList = first.toList ++ '\n' :: second.toList := by
    simp
  have hposition : Position.start.after (first.toList ++ ['\n']) =
      Position.start.shift (first.toList.count '\n' + 1) (byteLength first.toList + 1) := by
    rw [Position.after_eq_shift, List.count_append, byteLength_append]
    rfl
  rw [items_eq, items_eq, items_eq, htext, Point.start, itemsFrom_append_newline, hposition,
    itemsFrom_shift]
  rfl

end MiniPascal
