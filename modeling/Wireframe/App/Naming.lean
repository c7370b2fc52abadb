/-
Names derived from the name of a screen.

The words of a screen's name, in letters and digits of ASCII, give its *route id*: the words in
lower case joined by underscores.  Accented letters count as the letters they are built on.  A name
without words, or with a first word that starts with a digit, has the word `screen` in front.  Path,
class and file of the screen follow from the same words.

* `routeWords` — the words of a route id;
* `routeId`, `routePath`, `className`, `fileName` — the derived names;
* `Names`, `Names.ofName` — all of them together.
-/
import Wireframe.Text.Words

namespace Wireframe.App

/-- The letter that an accented letter is built on. -/
def baseLetter (c : Char) : Char :=
  match c with
  | 'á' | 'à' | 'â' | 'ä' | 'ã' => 'a'
  | 'Á' | 'À' | 'Â' | 'Ä' | 'Ã' => 'A'
  | 'é' | 'è' | 'ê' | 'ë' => 'e'
  | 'É' | 'È' | 'Ê' | 'Ë' => 'E'
  | 'í' | 'ì' | 'î' | 'ï' => 'i'
  | 'Í' | 'Ì' | 'Î' | 'Ï' => 'I'
  | 'ó' | 'ò' | 'ô' | 'ö' | 'õ' => 'o'
  | 'Ó' | 'Ò' | 'Ô' | 'Ö' | 'Õ' => 'O'
  | 'ú' | 'ù' | 'û' | 'ü' => 'u'
  | 'Ú' | 'Ù' | 'Û' | 'Ü' => 'U'
  | 'ñ' => 'n'
  | 'Ñ' => 'N'
  | 'ç' => 'c'
  | 'Ç' => 'C'
  | other => other

/-- The words of a name, in lower case. -/
def nameWords (name : String) : List (List Char) :=
  (Text.runs Char.isAlphanum (name.toList.map baseLetter)).map (·.map Char.toLower)

/-- The word for a screen. -/
def screenWord : List Char := "screen".toList

/-- A word that an identifier may start with. -/
def startsWithLetter : List Char → Bool
  | c :: _ => !c.isDigit
  | [] => false

/-- The words of the route id of a name. -/
def routeWords (name : String) : List (List Char) :=
  match nameWords name with
  | [] => [screenWord]
  | first :: rest =>
      -- the class is named after the words too, and no class starts with a digit
      if startsWithLetter first then first :: rest else screenWord :: first :: rest

/-- The first letter in upper case. -/
def capitalize : List Char → List Char
  | [] => []
  | c :: rest => c.toUpper :: rest

/-- The identifier of a screen in the app. -/
def routeId (name : String) : String := String.ofList (Text.joinWith ['_'] (routeWords name))

/-- The path of a screen. -/
def routePath (name : String) : String := "/" ++ routeId name

/-- The class of a screen. -/
def className (name : String) : String :=
  String.ofList ((routeWords name).map capitalize).flatten ++ "Screen"

/-- The file of a screen. -/
def fileName (name : String) : String := routeId name ++ "_screen.dart"

/-- All names derived from the name of a screen. -/
structure Names where
  routeId : String
  routePath : String
  className : String
  fileName : String
deriving Repr, DecidableEq, Inhabited

/-- The names derived from the name of a screen. -/
def Names.ofName (name : String) : Names where
  routeId := App.routeId name
  routePath := App.routePath name
  className := App.className name
  fileName := App.fileName name

example : routeId "Página 2-b" = "pagina_2_b" := by decide +kernel
example : className "2nd home" = "Screen2ndHomeScreen" := by decide +kernel

end Wireframe.App
