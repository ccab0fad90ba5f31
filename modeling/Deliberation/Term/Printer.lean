import Deliberation.Term.Basic

/-!
# Text of terms

A literal reads `~functor(argument, …)[annotation, …]`, with each part left out
where it is absent. A variable that carries a term shows it in parentheses.
-/

namespace Deliberation

set_option autoImplicit false

def enclose (opening closing : String) : List String → String
  | [] => ""
  | first :: rest => opening ++ ", ".intercalate (first :: rest) ++ closing

mutual

def Term.text : Term → String
  | .value raw => raw.text
  | .variable name => name
  | .bound name own => name ++ "(" ++ own.text ++ ")"
  | .literal inner => inner.text

def Literal.text : Literal → String
  | .mk functor negated _ arguments annotations =>
      (if negated then "~" else "") ++ functor.text ++
        enclose "(" ")" (Term.allTexts arguments) ++
        enclose "[" "]" (Literal.allTexts annotations)

def Term.allTexts : List Term → List String
  | [] => []
  | term :: rest => term.text :: Term.allTexts rest

def Literal.allTexts : List Literal → List String
  | [] => []
  | literal :: rest => literal.text :: Literal.allTexts rest

end

end Deliberation
