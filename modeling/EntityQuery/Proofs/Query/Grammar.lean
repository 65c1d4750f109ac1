import EntityQuery.Query.Parser

/-! # The grammar of queries

A derivation of the grammar is a tree with one constructor for each way to write a thing. It has the
words that are written, and what they stand for: parentheses leave nothing behind, chains of `and`
and `or` nest to the right, and a field without a direction is sorted by ascending. A keyword is any
word that spells it, in whichever case, and a name is any that spells no reserved word.

* `FilterTree`, `ConjunctionTree`, `OperandTree`, `PredicateTree`: filters.
* `QueryTree`: queries.
* `eq_of_isKeyword`: a word is one keyword at most. -/

namespace EntityQuery

/-- The sign of a comparison. -/
def Comparison.sign : Comparison → Query.Sign
  | equal => .equal
  | less => .less
  | lessEqual => .lessEqual
  | greater => .greater
  | greaterEqual => .greaterEqual

/-- The keyword that stands for a comparison. -/
def Comparison.keyword : Comparison → String
  | equal => "eq"
  | less => "lt"
  | lessEqual => "lte"
  | greater => "gt"
  | greaterEqual => "gte"

namespace Query

/-! ## Words -/

/-- A word that is a keyword. -/
structure Keyword (keyword : String) where
  token : Token
  isKeyword : token.isKeyword keyword = true

/-- What is written as a sign or as a keyword. -/
inductive Spelling (sign : Sign) (keyword : String) where
  | sign
  | keyword (word : Keyword keyword)

/-- A name that is not reserved. -/
structure Name where
  text : String
  free : isReserved text = false

/-- A number, with a point or an exponent or without. -/
inductive Measure where
  | int (n : Int64)
  | float (x : Binary64)

inductive Literal where
  | number (n : Measure)
  | quoted (text : String)
  | truth (word : Keyword "true")
  | falsehood (word : Keyword "false")

/-- One of the ten ways to write a comparison. -/
structure Operator where
  comparison : Comparison
  spelling : Spelling comparison.sign comparison.keyword

namespace Spelling

variable {sign : Sign} {keyword : String}

def token : Spelling sign keyword → Token
  | .sign => .sign sign
  | .keyword word => word.token

end Spelling

def Name.token (n : Name) : Token := .name n.text

namespace Measure

def token : Measure → Token
  | int n => .int n
  | float x => .float x

/-- The number as a double. -/
def value : Measure → Binary64
  | int n => .ofInt64 n
  | float x => x

end Measure

namespace Literal

def token : Literal → Token
  | number n => n.token
  | quoted text => .quoted text
  | truth word => word.token
  | falsehood word => word.token

def value : Literal → Scalar
  | number (.int n) => .int n
  | number (.float x) => .float x
  | quoted text => .string text
  | truth _ => .bool true
  | falsehood _ => .bool false

end Literal

def Operator.token (o : Operator) : Token := o.spelling.token

/-! ## Filters -/

/-- What a predicate asks of its property. -/
inductive ConditionTree where
  | compare (operator : Operator) (literal : Literal)
  | contains (word : Keyword "contains") (text : String)
  | within (word : Keyword "within") (distance : Measure) (ofWord : Keyword "of")
    (latitude longitude : Measure)

structure PredicateTree where
  property : Name
  condition : ConditionTree

mutual

inductive FilterTree where
  | conjunction (only : ConjunctionTree)
  | or (left : ConjunctionTree) (word : Spelling .either "or") (right : FilterTree)

inductive ConjunctionTree where
  | operand (only : OperandTree)
  | and (left : OperandTree) (word : Spelling .both "and") (right : ConjunctionTree)

inductive OperandTree where
  | not (word : Keyword "not") (operand : OperandTree)
  | parens (inner : FilterTree)
  | predicate (predicate : PredicateTree)

end

def ConditionTree.words : ConditionTree → List Token
  | compare operator literal => [operator.token, literal.token]
  | contains word text => [word.token, .quoted text]
  | within word distance ofWord latitude longitude =>
    [word.token, distance.token, ofWord.token, latitude.token, .sign .comma, longitude.token]

def ConditionTree.predicate (property : String) : ConditionTree → Predicate
  | compare operator literal => .compare property operator.comparison literal.value
  | contains _ text => .contains property text
  | within _ distance _ latitude longitude =>
    .within ⟨property, distance.value, latitude.value, longitude.value⟩

def PredicateTree.words (p : PredicateTree) : List Token := p.property.token :: p.condition.words

def PredicateTree.predicate (p : PredicateTree) : Predicate :=
  p.condition.predicate p.property.text

mutual

def FilterTree.words : FilterTree → List Token
  | .conjunction only => only.words
  | .or left word right => left.words ++ word.token :: right.words

def ConjunctionTree.words : ConjunctionTree → List Token
  | .operand only => only.words
  | .and left word right => left.words ++ word.token :: right.words

def OperandTree.words : OperandTree → List Token
  | .not word operand => word.token :: operand.words
  | .parens inner => .sign .openParen :: (inner.words ++ [.sign .closeParen])
  | .predicate predicate => predicate.words

end

mutual

def FilterTree.filter : FilterTree → Filter
  | .conjunction only => only.filter
  | .or left _ right => .or left.filter right.filter

def ConjunctionTree.filter : ConjunctionTree → Filter
  | .operand only => only.filter
  | .and left _ right => .and left.filter right.filter

def OperandTree.filter : OperandTree → Filter
  | .not _ operand => .not operand.filter
  | .parens inner => inner.filter
  | .predicate predicate => .leaf predicate.predicate

end

/-! ## Queries -/

/-- Items with commas between them, at least one. -/
inductive CommaList (α : Type) where
  | last (item : α)
  | next (item : α) (rest : CommaList α)

namespace CommaList

variable {α : Type}

def items : CommaList α → List α
  | last item => [item]
  | next item rest => item :: rest.items

/-- The item after which there is no comma. -/
def final : CommaList α → α
  | last item => item
  | next _ rest => rest.final

def words (word : α → List Token) : CommaList α → List Token
  | last item => word item
  | next item rest => word item ++ .sign .comma :: rest.words word

end CommaList

inductive DirectionTree where
  | ascending (word : Keyword "asc")
  | descending (word : Keyword "desc")

structure SortTree where
  field : Name
  direction? : Option DirectionTree

structure OrderTree where
  orderWord : Keyword "order"
  byWord : Keyword "by"
  terms : CommaList SortTree

inductive SelectionTree where
  | star
  | fields (names : CommaList Name)

structure WhereTree where
  word : Keyword "where"
  filter : FilterTree

inductive QueryTree where
  | select (word : Keyword "select") (selection : SelectionTree) (where? : Option WhereTree)
    (order? : Option OrderTree)
  | bare (filter : FilterTree) (order? : Option OrderTree)

def DirectionTree.token : DirectionTree → Token
  | ascending word => word.token
  | descending word => word.token

def DirectionTree.direction : DirectionTree → Direction
  | ascending _ => .ascending
  | descending _ => .descending

def SortTree.words (s : SortTree) : List Token :=
  s.field.token :: (s.direction?.map (·.token)).toList

def SortTree.term (s : SortTree) : SortTerm :=
  ⟨s.field.text, (s.direction?.map (·.direction)).getD .ascending⟩

def OrderTree.words (o : OrderTree) : List Token :=
  o.orderWord.token :: o.byWord.token :: o.terms.words SortTree.words

def OrderTree.order (o : OrderTree) : List SortTerm := o.terms.items.map SortTree.term

def SelectionTree.words : SelectionTree → List Token
  | star => [.sign .star]
  | fields names => names.words fun name => [name.token]

def SelectionTree.selection : SelectionTree → Selection
  | star => .all
  | fields names => .fields (names.items.map Name.text)

def WhereTree.words (w : WhereTree) : List Token := w.word.token :: w.filter.words

/-- The words of a part that may be left out. -/
def optionalWords {α : Type} (words : α → List Token) (part? : Option α) : List Token :=
  (part?.map words).getD []

/-- The terms of an order that may be left out. -/
def optionalOrder (order? : Option OrderTree) : List SortTerm :=
  (order?.map OrderTree.order).getD []

namespace QueryTree

def words : QueryTree → List Token
  | select word selection where? order? =>
    word.token :: (selection.words ++ optionalWords WhereTree.words where? ++
      optionalWords OrderTree.words order?)
  | bare f order? => f.words ++ optionalWords OrderTree.words order?

def query : QueryTree → Query
  | select _ selection where? order? =>
    ⟨selection.selection, where?.map (·.filter.filter), optionalOrder order?⟩
  | bare f order? => ⟨.all, some f.filter, optionalOrder order?⟩

end QueryTree

/-! ## Words are told apart -/

/-- **A word is one keyword at most.** -/
theorem eq_of_isKeyword {t : Token} {a b : String} (ha : t.isKeyword a = true)
    (hb : t.isKeyword b = true) : a = b := by
  cases t with
  | name s =>
    have ha : s.toList.map lowerAscii = a.toList := eq_of_beq ha
    have hb : s.toList.map lowerAscii = b.toList := eq_of_beq hb
    exact String.toList_inj.mp (ha.symm.trans hb)
  | _ => cases ha

theorem Keyword.not_isKeyword {a b : String} (word : Keyword a) (h : a ≠ b) :
    word.token.isKeyword b = false := by
  rw [Bool.eq_false_iff]
  exact fun hb => h (eq_of_isKeyword word.isKeyword hb)

theorem Keyword.ne_token {keyword : String} (word : Keyword keyword) {t : Token}
    (h : t.isKeyword keyword = false) : t ≠ word.token := by
  rintro rfl
  rw [word.isKeyword] at h
  cases h

theorem Keyword.ne_sign {keyword : String} (word : Keyword keyword) (s : Sign) :
    word.token ≠ .sign s :=
  (word.ne_token rfl).symm

theorem Keyword.exists_name {keyword : String} (word : Keyword keyword) :
    ∃ s, word.token = .name s := by
  obtain ⟨t, h⟩ := word
  cases t with
  | name s => exact ⟨s, rfl⟩
  | _ => cases h

theorem Keyword.token_injective {keyword : String} {a b : Keyword keyword}
    (h : a.token = b.token) : a = b := by
  cases a
  cases b
  congr

theorem Spelling.token_injective {sign : Sign} {keyword : String} {a b : Spelling sign keyword}
    (h : a.token = b.token) : a = b := by
  cases a with
  | sign =>
    cases b with
    | sign => rfl
    | keyword word => exact absurd h.symm (word.ne_sign sign)
  | keyword word =>
    cases b with
    | sign => exact absurd h (word.ne_sign sign)
    | keyword word' => rw [Keyword.token_injective h]

theorem Spelling.exists_token_eq {sign : Sign} {keyword : String} {t : Token} :
    (∃ w : Spelling sign keyword, w.token = t) ↔ t = .sign sign ∨ t.isKeyword keyword = true := by
  constructor
  · rintro ⟨_ | word, rfl⟩
    · exact .inl rfl
    · exact .inr word.isKeyword
  · rintro (rfl | h)
    · exact ⟨.sign, rfl⟩
    · exact ⟨.keyword ⟨t, h⟩, rfl⟩

theorem eq_of_spelled {t : Token} {c c' : Comparison}
    (h : t = .sign c.sign ∨ t.isKeyword c.keyword = true)
    (h' : t = .sign c'.sign ∨ t.isKeyword c'.keyword = true) : c = c' := by
  have hsign : c.sign = c'.sign → c = c' := by
    cases c <;> cases c' <;> decide
  have hkeyword : c.keyword = c'.keyword → c = c' := by
    cases c <;> cases c' <;> decide
  rcases h with rfl | h
  · rcases h' with h' | h'
    · exact hsign (Token.sign.inj h')
    · cases h'
  · rcases h' with rfl | h'
    · cases h
    · exact hkeyword (eq_of_isKeyword h h')

theorem Spelling.not_isKeyword {sign : Sign} {keyword other : String}
    (w : Spelling sign keyword) (h : keyword ≠ other) : w.token.isKeyword other = false := by
  cases w with
  | sign => rfl
  | keyword word => exact word.not_isKeyword h

theorem Name.not_isKeyword (n : Name) {keyword : String} (h : keyword ∈ reservedWords) :
    n.token.isKeyword keyword = false := by
  rw [Bool.eq_false_iff]
  intro hspells
  have hreserved : isReserved n.text = true := List.any_eq_true.mpr ⟨keyword, h, hspells⟩
  exact Bool.false_ne_true (n.free.symm.trans hreserved)

end Query

end EntityQuery
