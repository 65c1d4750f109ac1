/-! # Cutting text at separators -/

namespace EntityQuery.Text

/-- The parts of a text between the characters that separate; there is one part more than there are
such characters. -/
def splitWhere (separates : Char → Bool) : List Char → List (List Char)
  | [] => [[]]
  | c :: rest =>
    if separates c then [] :: splitWhere separates rest
    else match splitWhere separates rest with
      | [] => [[c]]
      | part :: parts => (c :: part) :: parts

end EntityQuery.Text
