import MiniPascal.Proofs.Resolution

/-!
# Independence of the symbol table

Which tokens a source has is settled before any symbol table is asked. Two runs on one source,
against tables that may answer anything and may change with every question, therefore go in step:
they differ at most in the entries of identifiers. Main statement: `SymbolTable.alike_items`.
-/

namespace MiniPascal

variable {σ σ' η η' : Type}

/-! ## Items that differ in entries only -/

/-- Two tokens are alike: they have the same kind and the same position, and also the same value,
unless they are identifiers, of which each has some entry. -/
structure Token.Alike (first second : Token) : Prop where
  kind_eq : first.kind = second.kind
  position_eq : first.position = second.position
  value_eq : first.kind ≠ .identifier → first.value = second.value
  exists_entries : first.kind = .identifier → ∃ entry entry',
    first.value = .identifier entry ∧ second.value = .identifier entry'

/-- Two items are alike: tokens that are alike, or the same error. -/
inductive Item.Alike : Item → Item → Prop where
  | token {first second : Token} (h : first.Alike second) : Alike (.ok first) (.ok second)
  | error (error : Error) : Alike (.error error) (.error error)

/-- Two outcomes are alike: tokens that are alike one by one, or the same error. -/
inductive OutcomesAlike : Except Error (List Token) → Except Error (List Token) → Prop where
  | tokens {first second : List Token} (h : List.Forall₂ Token.Alike first second) :
      OutcomesAlike (.ok first) (.ok second)
  | error (error : Error) : OutcomesAlike (.error error) (.error error)

/-- Items that are alike have outcomes that are alike. -/
theorem outcomesAlike_collect {first second : List Item}
    (h : List.Forall₂ Item.Alike first second) :
    OutcomesAlike (collect first) (collect second) := by
  induction h with
  | nil => exact .tokens .nil
  | @cons item item' items items' hitem _ ih =>
    cases hitem with
    | error error => exact .error error
    | @token token token' htoken =>
      rw [collect, collect]
      generalize collect items = outcome at ih ⊢
      generalize collect items' = outcome' at ih ⊢
      cases ih with
      | tokens htokens => exact .tokens (.cons htoken htokens)
      | error error => exact .error error

/-! ## Runs in step -/

/-- Two tokens made of one finding are alike. -/
theorem Finding.alike_of_makes {source : String} {finding : Finding} {first second : Token}
    (h : finding ∈ findings source) (hfirst : finding.Makes first)
    (hsecond : finding.Makes second) : first.Alike second := by
  have hposition := hfirst.position_eq.trans hsecond.position_eq.symm
  have hshows := hfirst.content_shows
  have hshows' := hsecond.content_shows
  obtain ⟨kind, value, position⟩ := first
  obtain ⟨kind', value', position'⟩ := second
  cases hcontent : finding.content with
  | literal literalKind literalValue =>
    have hne := kind_ne_identifier h hcontent
    rw [hcontent] at hshows hshows'
    cases hshows
    cases hshows'
    exact ⟨rfl, hposition, fun _ => rfl, fun heq => absurd heq hne⟩
  | name name =>
    rw [hcontent] at hshows hshows'
    cases hshows with
    | name _ entry =>
      cases hshows' with
      | name _ entry' =>
        exact ⟨rfl, hposition, fun hne => absurd rfl hne, fun _ => ⟨entry, entry', rfl, rfl⟩⟩

/-- Tokens made of the same findings are alike one by one. -/
theorem Finding.forall₂_alike {found : List Finding} {first second : List Token}
    (hmakes : ∀ finding ∈ found, ∀ first second, finding.Makes first → finding.Makes second →
      first.Alike second)
    (hfirst : List.Forall₂ Finding.Makes found first)
    (hsecond : List.Forall₂ Finding.Makes found second) :
    List.Forall₂ Token.Alike first second := by
  induction hfirst generalizing second with
  | nil =>
    cases hsecond
    exact .nil
  | @cons finding token found tokens hmade _ ih =>
    cases hsecond with
    | cons hmade' htail =>
      refine .cons (hmakes finding List.mem_cons_self _ _ hmade hmade') (ih ?_ htail)
      exact fun other hother => hmakes other (List.mem_cons_of_mem finding hother)

namespace SymbolTable

/-- **No symbol table has an influence on more than the entries of identifiers.** Against any two
tables, in any states, a source has items that are alike one by one, and outcomes that are alike.
In particular a reserved word never becomes an identifier, whatever a table answers, and registering
it in a table of variables changes nothing. -/
theorem alike_items (first : SymbolTable σ η) (second : SymbolTable σ' η') (state : σ) (state' : σ')
    (source : String) :
    List.Forall₂ Item.Alike ((items first source).run state).1
        ((items second source).run state').1 ∧
      OutcomesAlike ((tokenize first source).run state).1 ((tokenize second source).run state').1 ∧
      (∀ token, .ok token ∈ ((items first source).run state).1 → token.kind = .identifier →
        ¬ IsReserved (token.spelling source)) ∧
      ∀ (table : VariableTable) (entry : SymbolEntry), IsReserved entry.name →
        (table.insert entry).2.items source = table.items source := by
  have halike : List.Forall₂ Item.Alike ((items first source).run state).1
      ((items second source).run state').1 := by
    obtain ⟨tokens, hitems, hmakes⟩ := exists_items_eq first state source
    obtain ⟨tokens', hitems', hmakes'⟩ := exists_items_eq second state' source
    have htokens := Finding.forall₂_alike
      (fun finding hfinding _ _ => finding.alike_of_makes hfinding)
      hmakes hmakes'
    rw [hitems, hitems']
    refine List.rel_append ?_ ?_
    · exact List.forall₂_map_left_iff.2
        (List.forall₂_map_right_iff.2 (htokens.imp fun _ _ => .token))
    · cases (Scan.all Rule.all (Point.start source.toList)).2 with
      | finish point => exact .nil
      | failure cause c point => exact .cons (.error _) .nil
  refine ⟨halike, outcomesAlike_collect halike, fun token htoken hkind => ?_,
    fun table entry hentry => ?_⟩
  · exact not_isReserved_spelling first state htoken hkind
  · -- no identifier is spelled with the name of the entry
    rw [VariableTable.items_insert]
    refine (List.map_congr_left fun item hitem => ?_).trans (List.map_id _)
    cases item with
    | error error => rfl
    | ok token =>
      have hother : ¬ (token.kind = .identifier ∧ token.spelling source = entry.name) := by
        rintro ⟨hkind, hspelling⟩
        refine not_isReserved_spelling VariableTable.symbols table hitem hkind ?_
        rwa [hspelling]
      show Except.ok (token.redeclared source entry) = _
      rw [Token.redeclared, if_neg hother]
      rfl

end SymbolTable

end MiniPascal
