import SetAssoc.Json.Value
import SetAssoc.Proofs.Json.Token

/-!
# The grammar of values

A text of a value holds the tokens of the value in order, in any spelling and with any blanks around
them.
-/

namespace SetAssoc.Json.Value

open Expectation (beginValue resume)

/-! ## Values from their tokens -/

theorem foldlM_tokens_item (value : Value) (outer : List Frame) :
    value.tokens.foldlM Expectation.step (.item outer) =
      value.tokens.foldlM Expectation.step (.value (.array [] :: outer)) := by
  cases value with
  | null | bool _ | number _ | string _ => rfl
  | array items => cases items <;> rfl
  | object members => cases members <;> rfl

mutual

theorem foldlM_tokens (outer : List Frame) :
    ∀ value : Value, value.tokens.foldlM Expectation.step (.value outer) = some (.after value outer)
  | null | bool _ | number _ | string _ => rfl
  | array [] | object [] => rfl
  | array (item :: items) => by
      have first := foldlM_tokens (.array [] :: outer) item
      have others := foldlM_itemTokens [] item outer items
      simpa [tokens, Expectation.step, beginValue, foldlM_tokens_item, first] using others
  | object ((key, value) :: members) => by
      have first := foldlM_tokens (.object [] key :: outer) value
      have others := foldlM_memberTokens [] key value outer members
      simpa [tokens, Expectation.step, beginValue, first] using others

theorem foldlM_itemTokens (read : List Value) (last : Value) (outer : List Frame) :
    ∀ items : List Value,
      (itemTokens items).foldlM Expectation.step (.after last (.array read :: outer)) =
        some (.after (.array (read.reverse ++ last :: items)) outer)
  | [] => by simp [itemTokens, Expectation.step, resume]
  | item :: items => by
      have first := foldlM_tokens (.array (last :: read) :: outer) item
      have others := foldlM_itemTokens (last :: read) item outer items
      simpa [itemTokens, Expectation.step, resume, first] using others

theorem foldlM_memberTokens (read : List (Text × Value)) (key : Text) (last : Value)
    (outer : List Frame) : ∀ members : List (Text × Value),
      (memberTokens members).foldlM Expectation.step (.after last (.object read key :: outer)) =
        some (.after (.object (read.reverse ++ (key, last) :: members)) outer)
  | [] => by simp [memberTokens, Expectation.step, resume]
  | (name, value) :: members => by
      have first := foldlM_tokens (.object ((key, last) :: read) name :: outer) value
      have others := foldlM_memberTokens ((key, last) :: read) name value outer members
      simpa [memberTokens, Expectation.step, resume, first] using others

end

theorem ofTokens?_tokens (value : Value) : ofTokens? value.tokens = some value := by
  rw [ofTokens?, foldlM_tokens]

/-! ## The text of a value -/

theorem closed_head_itemTokens (items : List Value) :
    ∀ token ∈ (itemTokens items).head?, token.isOpen = false := by
  cases items <;> simp [itemTokens, Token.isOpen]

theorem closed_head_memberTokens (members : List (Text × Value)) :
    ∀ token ∈ (memberTokens members).head?, token.isOpen = false := by
  cases members <;> simp [memberTokens, Token.isOpen]

mutual

theorem separated_tokens : ∀ value : Value, value.tokens.IsChain Token.Before
  | null | bool _ | number _ | string _ => .singleton _
  | array [] | object [] => by simp [tokens, Token.Before, Token.isOpen]
  | array (item :: items) => by
      rw [tokens, List.cons_append, isChain_cons_of_closed rfl]
      exact isChain_append_of_closed (separated_tokens item) (separated_itemTokens items)
        (closed_head_itemTokens items)
  | object ((key, value) :: members) => by
      rw [tokens, List.cons_append, List.cons_append, List.cons_append,
        isChain_cons_of_closed rfl, isChain_cons_of_closed rfl, isChain_cons_of_closed rfl]
      exact isChain_append_of_closed (separated_tokens value) (separated_memberTokens members)
        (closed_head_memberTokens members)

theorem separated_itemTokens : ∀ items : List Value, (itemTokens items).IsChain Token.Before
  | [] => .singleton _
  | item :: items => by
      rw [itemTokens, List.cons_append, isChain_cons_of_closed rfl]
      exact isChain_append_of_closed (separated_tokens item) (separated_itemTokens items)
        (closed_head_itemTokens items)

theorem separated_memberTokens : ∀ members : List (Text × Value),
    (memberTokens members).IsChain Token.Before
  | [] => .singleton _
  | (name, value) :: members => by
      rw [memberTokens, List.cons_append, List.cons_append, List.cons_append,
        isChain_cons_of_closed rfl, isChain_cons_of_closed rfl, isChain_cons_of_closed rfl]
      exact isChain_append_of_closed (separated_tokens value) (separated_memberTokens members)
        (closed_head_memberTokens members)

end

def WrittenAs (value : Value) (text : String) : Prop := WritesTokens text.toList value.tokens

namespace WrittenAs

variable {value : Value} {text : String} (written : value.WrittenAs text)
include written

theorem tokens?_eq : tokens? text = some value.tokens :=
  WritesTokens.tokens?_eq written (separated_tokens value)

theorem parse?_eq : parse? text = some value := by
  rw [parse?, written.tokens?_eq, Option.bind_some, ofTokens?_tokens]

end WrittenAs

theorem writtenAs_compact {value : Value} (readable : ∀ token ∈ value.tokens, token.Readable) :
    value.WrittenAs value.compact := by
  rw [WrittenAs, compact, String.toList_ofList]
  exact writesTokens_text readable

end SetAssoc.Json.Value
