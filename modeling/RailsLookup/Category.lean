import RailsLookup.Text.Search

/-! # Categories of references

The line around a reference tells what kind of thing it names. A line may show several
categories; the one of highest priority is taken, and a plain method call if it shows
none.
-/

namespace RailsLookup

inductive Category where
  | service
  | controller
  | helper
  | mailer
  | view
  | callback
  | model
  | method
  deriving DecidableEq, Repr

namespace Category

open Pattern

def name : Category → String
  | service => "service"
  | controller => "controller"
  | helper => "helper"
  | mailer => "mailer"
  | view => "view"
  | callback => "callback"
  | model => "model"
  | method => "method"

/-- Every category that a line can show, the highest priority first. -/
def priority : List Category := [service, controller, helper, mailer, view, callback, model]

def ofName? (s : String) : Option Category := (priority ++ [method]).find? (·.name == s)

def wordEnding (ending : String) : Pattern := edge ++ word ++ lit ending.toList ++ edge

/-- A keyword that introduces a name, such as `service :payment`, with up to two colons between. -/
def keyword (key : String) : Pattern :=
  let colons := lit [':'] ++ blanks ++ optional (lit [':'])
  edge ++ lit key.toList ++ blanks ++ optional colons ++ word

def qualifiedEnding (ending : String) : Pattern :=
  let scope := word ++ lit [':', ':']
  edge ++ scope ++ star scope ++ word ++ lit ending.toList ++ edge

def controllerOption : Pattern :=
  edge ++ lit "controller".toList ++ blanks ++ lit [':'] ++ blanks ++
    alt (quote ++ word ++ quote) (lit [':'] ++ word)

def renderCall : Pattern :=
  edge ++ lit "render".toList ++ blanks ++ optional (lit ['('] ++ blanks)

def callbackMacro : Pattern :=
  let literals (names : List String) : Pattern := anyOf (names.map fun n => lit n.toList)
  edge ++ literals ["before", "after"] ++ lit ['_'] ++
    literals ["validation", "save", "create", "update", "destroy"] ++ gap ++ lit [':'] ++ word

def association (key : String) : Pattern := edge ++ lit key.toList ++ gap ++ lit [':'] ++ word

def classNameOption : Pattern :=
  edge ++ lit "class_name".toList ++ blanks ++ one (fun c => c == '=' || c == ':') ++ blanks ++
    quote ++ word ++ quote

def classCall : Pattern :=
  edge ++ one Char.isUpper ++ word ++ lit ['.'] ++
    anyOf (["find", "where", "create", "new"].map fun n => lit n.toList)

def patterns : Category → List Pattern
  | service => [wordEnding "Service", keyword "service"]
  | controller => [wordEnding "Controller", controllerOption]
  | helper => [keyword "helper", wordEnding "Helper", qualifiedEnding "Helper"]
  | mailer => [keyword "mailer", wordEnding "Mailer", qualifiedEnding "Mailer"]
  | view =>
    [renderCall ++ quote ++ word, renderCall ++ lit [':'] ++ word,
     renderCall ++ lit "partial".toList ++ blanks ++ lit [':'] ++ blanks ++ quote ++ word]
  | callback => [callbackMacro]
  | model =>
    [association "belongs_to", association "has_many", association "has_one",
     association "has_and_belongs_to_many", classNameOption, classCall]
  | method => []

/-- Whether the line shows the category. Every line may hold a method call. -/
def matchesLine (c : Category) (line : Text) : Bool :=
  c == method || c.patterns.any (·.occursIn line)

def candidates (line : Text) : List Category := priority.filter (·.matchesLine line)

def classify (line : Text) : Category := (candidates line).headD method

end Category

end RailsLookup
