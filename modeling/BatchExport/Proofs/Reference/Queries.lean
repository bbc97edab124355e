import BatchExport.Reference.Kind

/-! Queries for exactly one value. Main statement: a reader of the query language reads the value itself between the
quotes, meets no wildcard there and finds nothing after it; so different values have different queries. -/
namespace BatchExport

/-- A part of a quoted literal of the query language. -/
inductive LiteralPart where
  | char (c : Char)
  /-- Stands for other characters. -/
  | wildcard (c : Char)
  deriving DecidableEq, Repr

namespace LiteralPart

/-- A character that no backslash comes before. -/
def bare (c : Char) : LiteralPart := if c = '*' ∨ c = '?' ∨ c = '^' then wildcard c else char c

/-- Reads a literal after its opening quote, and gives what comes after the closing one. A backslash makes the next
character literal, and a quote without one ends the literal. -/
def read? : List Char → Option (List LiteralPart × List Char)
  | [] => none
  | '"' :: after => some ([], after)
  | ['\\'] => none
  | '\\' :: c :: rest => (read? rest).map fun (parts, after) => (char c :: parts, after)
  | c :: rest => (read? rest).map fun (parts, after) => (bare c :: parts, after)

theorem char_injective : Function.Injective char := fun _ _ h => char.inj h

theorem read?_plain {c : Char} (h : ¬ (c = '\\' ∨ c = '"' ∨ c = '*' ∨ c = '?' ∨ c = '^')) (rest : List Char) :
    read? (c :: rest) = (read? rest).map fun (parts, after) => (char c :: parts, after) := by
  simp only [not_or] at h
  obtain ⟨hbackslash, hquote, hstar, hmark, hcaret⟩ := h
  rw [read?]
  · simp [bare, hstar, hmark, hcaret]
  all_goals simp_all

/-- What comes after the closing quote does not matter. -/
theorem read?_escapeLiteral (value after : List Char) :
    read? (ReferenceKind.escapeLiteral value ++ '"' :: after) = some (value.map char, after) := by
  induction value with
  | nil => simp [ReferenceKind.escapeLiteral, read?]
  | cons c value ih =>
    rw [ReferenceKind.escapeLiteral]
    split
    · rw [List.cons_append, List.cons_append, read?, ih]
      rfl
    · rw [List.cons_append, read?_plain ‹_›, ih]
      rfl

end LiteralPart

namespace ReferenceKind

/-- What a query has before the literal. -/
def queryLead (kind : ReferenceKind) : List Char := kind.queryField.toList ++ "==\"".toList

theorem toList_exactMatchQuery (kind : ReferenceKind) (value : String) :
    (kind.exactMatchQuery value).toList = kind.queryLead ++ (escapeLiteral value.toList ++ ['"']) := by
  simp [exactMatchQuery, queryLead]

theorem exactMatchQuery_injective (kind : ReferenceKind) : Function.Injective kind.exactMatchQuery := by
  intro value other h
  have htext := congrArg String.toList h
  rw [toList_exactMatchQuery, toList_exactMatchQuery, List.append_cancel_left_eq] at htext
  have hread := congrArg LiteralPart.read? htext
  rw [LiteralPart.read?_escapeLiteral, LiteralPart.read?_escapeLiteral, Option.some.injEq, Prod.mk.injEq] at hread
  apply String.toList_inj.mp
  exact (List.map_inj_right LiteralPart.char_injective).mp hread.1

/-- After the field, the equals signs and the opening quote, a reader finds the characters of the value, none of them a
wildcard, and the end of the literal is the end of the query. Nothing that is put after the query changes what is read,
and no other value has the same query. -/
theorem exactMatchQuery_reads_value (kind : ReferenceKind) (value : String) :
    ∃ literal, (kind.exactMatchQuery value).toList = kind.queryLead ++ literal ∧
      (∀ after, LiteralPart.read? (literal ++ after) = some (value.toList.map .char, after)) ∧
      ∀ other, kind.exactMatchQuery other = kind.exactMatchQuery value ↔ other = value := by
  refine ⟨escapeLiteral value.toList ++ ['"'], kind.toList_exactMatchQuery value, fun after => ?_, fun other => ?_⟩
  · rw [List.append_assoc]
    exact LiteralPart.read?_escapeLiteral value.toList after
  · exact kind.exactMatchQuery_injective.eq_iff

/-- Backslashes before a quote, and a wildcard. -/
example : (LiteralPart.read? (escapeLiteral ['\\', '"', '*'] ++ ['"'])) =
    some ([.char '\\', .char '"', .char '*'], []) := by decide

end ReferenceKind
end BatchExport
