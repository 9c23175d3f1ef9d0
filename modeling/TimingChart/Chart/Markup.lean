/-!
# Markup

A document is made of elements with attributes. The five characters that mean something in markup
are written as entities wherever text stands.
-/

namespace TimingChart.Markup

/-- The name of the entity for a character. -/
def entity? : Char → Option (List Char)
  | '&' => some ['a', 'm', 'p']
  | '<' => some ['l', 't']
  | '>' => some ['g', 't']
  | '"' => some ['q', 'u', 'o', 't']
  | '\'' => some ['a', 'p', 'o', 's']
  | _ => none

/-- The text with entities. -/
def escape (text : List Char) : List Char :=
  text.flatMap fun c =>
    match entity? c with
    | some name => '&' :: name ++ [';']
    | none => [c]

/-- The text that entities stand for. There is none if an ampersand begins no entity. -/
def unescape? : List Char → Option (List Char)
  | '&' :: 'a' :: 'm' :: 'p' :: ';' :: rest => (unescape? rest).map ('&' :: ·)
  | '&' :: 'l' :: 't' :: ';' :: rest => (unescape? rest).map ('<' :: ·)
  | '&' :: 'g' :: 't' :: ';' :: rest => (unescape? rest).map ('>' :: ·)
  | '&' :: 'q' :: 'u' :: 'o' :: 't' :: ';' :: rest => (unescape? rest).map ('"' :: ·)
  | '&' :: 'a' :: 'p' :: 'o' :: 's' :: ';' :: rest => (unescape? rest).map ('\'' :: ·)
  | '&' :: _ => none
  | c :: rest => (unescape? rest).map (c :: ·)
  | [] => some []

/-- An element without element children. An element with content has it on lines of its own. -/
structure Element where
  tag : String
  attributes : List (String × String)
  content : Option String
deriving DecidableEq, Repr

/-- The attributes of a tag, each after a blank. -/
def attributesText (attributes : List (String × String)) : List Char :=
  attributes.flatMap fun (name, value) =>
    ' ' :: name.toList ++ '=' :: '"' :: escape value.toList ++ ['"']

/-- The written form of an element, up to and with its last line end. -/
def Element.text (e : Element) : List Char :=
  match e.content with
  | none => '<' :: e.tag.toList ++ attributesText e.attributes ++ ['/', '>', '\n']
  | some content =>
    '<' :: e.tag.toList ++ attributesText e.attributes ++ ['>', '\n'] ++ escape content.toList ++
      ['\n', '<', '/'] ++ e.tag.toList ++ ['>', '\n']

end TimingChart.Markup
